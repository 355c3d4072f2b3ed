import Mathlib
import Unawait.Proofs.Hosts

/-!
# The edits of a walk amount to the translation

By induction over the nearest rewritten nodes below, every rewritten node agrees with its
translation, so after all calls of a walk the source shows the translation of its tree. Two
conditions are put on the tree: no rewritten node lies inside a range that is replaced for a node
around it, and nothing is moved inside a range that is moved.
-/

namespace Unawait.Lowering

open Edit (Operation History Settled Shows)

/-- No move is made inside a range that is moved for a node around it. -/
def Steady (reading : Reading) : Node → Place → Prop :=
  placedFold fun node place parts =>
    (∀ inner ∈ below reading node place, ∀ edit ∈ (rewrite reading node place).edits node,
      ∀ move ∈ edit.moved?, move.start ≤ inner.1.start → inner.1.stop ≤ move.stop →
        ∀ other ∈ calls reading inner, other.moved? = none) ∧
      ∀ part ∈ parts, part.2

theorem steady_iff (reading : Reading) (node : Node) (place : Place) :
    Steady reading node place ↔
      (∀ inner ∈ below reading node place, ∀ edit ∈ (rewrite reading node place).edits node,
        ∀ move ∈ edit.moved?, move.start ≤ inner.1.start → inner.1.stop ≤ move.stop →
          ∀ other ∈ calls reading inner, other.moved? = none) ∧
        ∀ placed ∈ places node place, Steady reading placed.1.2 placed.2 := by
  rw [Steady, placedFold_eq]
  exact and_congr_right fun _ => List.forall_mem_map

section Agreement

variable {reading : Reading} {node : Node} {place : Place} {history : History}

/-- Nothing is moved for a parent. -/
theorem Rewrite.moved_of_guests {rule : Rewrite} {edit : Operation} (made : edit ∈ rule.guests) :
    edit.moved? = none := by
  have bound {binding : Binding} (here : edit ∈ binding.edits) : edit.moved? = none := by
    simp only [Binding.edits, List.mem_append, List.mem_map, Option.mem_toList,
      List.mem_singleton] at here
    rcases here with ⟨span, -, rfl⟩ | rfl <;> rfl
  cases rule with
  | name text use =>
    cases use with
    | called binding => exact bound made
    | _ => simp [Rewrite.guests, Use.guests] at made
  | key property use =>
    cases use with
    | called binding => exact bound made
    | _ => simp [Rewrite.guests, Use.guests] at made
  | loop number marker labelled particles left right body =>
    cases labelled with
    | none => simp [Rewrite.guests] at made
    | some offset => rw [List.mem_singleton.mp made]; rfl
  | _ => simp [Rewrite.guests] at made

/-- No earlier move touches the target of a loop. -/
theorem still_target (ordered : reading.tokens.Ordered) (fit : Fit reading node place)
    (steady : Steady reading node place) (untouched : history.Untouched node.start node.stop)
    {left : Node} {destination : Nat} (part : (Field.left, left) ∈ node.parts)
    (nonempty : left.start < left.stop)
    (made : Operation.moveRange left.start left.stop destination ∈
      (rewrite reading node place).edits node) :
    ∀ move ∈ History.moves (history ++ (below reading node place).flatMap (calls reading)),
      move.Apart left.start left.stop := by
  intro move moved
  obtain ⟨first, last⟩ := fit.nested.2.1 _ part
  dsimp only at first last
  rw [History.moves_append, List.mem_append] at moved
  rcases moved with earlier | below'
  · have free : history.Untouched left.start left.stop := fun edit here =>
      (untouched edit here).mono first last
    exact (free.moves_apart earlier).2
  · obtain ⟨edit, here, moves⟩ := List.mem_filterMap.mp below'
    obtain ⟨inner, member, call⟩ := List.mem_flatMap.mp here
    obtain ⟨-, -, -, fits, -, full, -⟩ := inner_of_below ordered fit member
    obtain ⟨atStart, atStop⟩ := outside_of_ends ordered fit part nonempty
    have cutStart := atStart inner member
    have cutStop := atStop inner member
    dsimp only at cutStart cutStop
    -- a rewritten node is inside the target or beside it, as it does not cross its ends
    by_cases inside : left.start ≤ inner.1.start ∧ inner.1.stop ≤ left.stop
    · have none := ((steady_iff _ _ _).mp steady).1 inner member _ made _ rfl inside.1 inside.2 edit call
      rw [none] at moves
      simp at moves
    · have apart : edit.Apart left.start left.stop := by
        rcases calls_within ordered fits edit call with within | guest
        · exact within.apart (by omega)
        · rw [Rewrite.moved_of_guests guest] at moves
          simp at moves
      cases edit with
      | moveRange start stop target =>
        obtain rfl : (⟨start, stop, target⟩ : Edit.Move) = move := by
          simpa [Operation.moved?] using moves
        exact apart.2
      | _ => simp [Operation.moved?] at moves

/-- In a tree that fits its text the calls in a rewritten node make it show its translation. -/
theorem agrees (ordered : reading.tokens.Ordered) (fit : Fit reading node place)
    (visible : Visible reading node place) (steady : Steady reading node place)
    (rewritten : (rewrite reading node place).isKeep = false) : Agrees reading (node, place) := by
  revert fit visible steady rewritten
  refine @below_induction reading (fun node place => Fit reading node place →
    Visible reading node place → Steady reading node place →
    (rewrite reading node place).isKeep = false → Agrees reading (node, place)) ?_ node place
  intro node place ih fit visible steady rewritten history untouched
  have inside : ∀ inner ∈ below reading node place, Agrees reading inner := by
    intro inner member
    obtain ⟨-, -, -, fits, -, -, -⟩ := inner_of_below ordered fit member
    refine ih inner member fits ?_ ?_ (rewritten_of_below member)
    · exact inherited (fun node place here => ((visible_iff _ _ _).mp here).2) visible member
    · exact inherited (fun node place here => ((steady_iff _ _ _).mp here).2) steady member
  -- the nodes below agree, so only the calls of the node's own rule are left
  have prepared := prepared ordered fit visible inside untouched
  have clear : ∀ edit ∈ (rewrite reading node place).edits node, Clears reading node place edit :=
    fun edit made => edits_clear ordered fit (fun _ => visible) made
  have fits := (fit.carries ordered).fits
  have still := fun left destination => @still_target reading node place history ordered fit steady
    untouched left destination
  dsimp only at untouched ⊢
  rw [calls_eq ordered fit, translation, ← List.append_assoc]
  have ready := fun none => prepared.ready ordered fit none
  cases form : rewrite reading node place with
  | keep => simp [form, Rewrite.isKeep] at rewritten
  | call binding =>
    simpa [Rewrite.edits] using call_agrees ordered fit visible form untouched prepared
  | label => simpa [Rewrite.edits] using label_agrees ordered fit form untouched prepared
  | await opening closing =>
    rw [form] at clear fits ready
    exact (ready rfl).await fits clear
  | name text use =>
    rw [form] at clear fits ready
    exact (ready rfl).name fits clear
  | key property use =>
    rw [form] at clear fits ready
    exact (ready rfl).key fits clear
  | assignName left right head tail =>
    rw [form] at clear fits ready
    exact (ready rfl).assignName fits fit.nested clear
  | assignKey left property right =>
    rw [form] at clear fits ready
    exact (ready rfl).assignKey fits fit.nested clear
  | loop number marker labelled particles left right body =>
    rw [form] at clear fits ready still
    obtain ⟨first, last⟩ :=
      outside_of_ends ordered fit (Node.mem_parts_of_child fits.bodyPart) fits.bodyNonempty
    refine (ready rfl).loop fits fit.nested clear first last (still left
      (if body.is .blockStatement then body.start + 1 else body.start) fits.leftPart
      fits.leftNonempty ?_)
    simp [Rewrite.edits, loopEdits]
  | function removed star body opening closing =>
    rw [form] at clear fits ready
    exact (ready rfl).function fits fit.nested clear
  | arrowBlock removed body opening closing =>
    rw [form] at clear fits ready
    exact (ready rfl).arrowBlock fits.1 fits.2 fit.nested clear
  | arrowValue removed arrowStop body opening closing =>
    rw [form] at clear fits ready
    exact (ready rfl).arrowValue fits fit.nested clear

/-! ### The whole source -/

/-- What a source becomes: the text of each rewritten node that is inside no other one, and all
other bytes as they are. -/
def translated (reading : Reading) (root : Node) : Bytes :=
  between reading.source (patches reading root {}) 0 reading.source.bytes

theorem inherited_frontier {property : Node → Place → Prop}
    (part : ∀ node place, property node place →
      ∀ placed ∈ places node place, property placed.1.2 placed.2)
    (here : property node place) {inner : Node × Place}
    (member : inner ∈ frontier reading node place) : property inner.1 inner.2 := by
  cases kept : (rewrite reading node place).isKeep with
  | true => exact inherited part here (frontier_of_keep kept ▸ member)
  | false =>
    rw [frontier_of_rewritten kept, List.mem_singleton] at member
    exact member ▸ here

/-- After all calls of a walk the source shows its translation. -/
theorem shows_translated {root : Node} (ordered : reading.tokens.Ordered) (fit : Fit reading root {})
    (visible : Visible reading root {}) (steady : Steady reading root {})
    (inSource : root.stop ≤ reading.source.bytes) :
    Shows reading.source (calls reading (root, {})) 0 reading.source.bytes
      (translated reading root) := by
  have found : ∀ inner ∈ frontier reading root {}, Inner reading root.start root.stop inner :=
    fun inner member => inner_of_frontier ordered fit member
  have alone : ∀ inner ∈ frontier reading root {}, (rewrite reading inner.1 inner.2).guests = [] := by
    intro inner member
    by_contra guests
    cases kept : (rewrite reading root {}).isKeep with
    | true =>
      rw [frontier_of_keep kept] at member
      simp [rewritten_of_guests fit member guests] at kept
    | false =>
      rw [frontier_of_rewritten kept, List.mem_singleton] at member
      subst member
      exact guests (guests_root root)
  have within : ∀ inner ∈ frontier reading root {}, ∀ edit ∈ calls reading inner,
      edit.Within inner.1.start inner.1.stop ∨ edit ∈ (rewrite reading inner.1 inner.2).guests :=
    fun inner member => calls_within ordered (found inner member).fit
  have each : ∀ inner ∈ frontier reading root {}, Settled reading.source
      (calls reading (root, {})) inner.1.start inner.1.stop (translation reading inner) := by
    intro inner member
    rw [calls_eq_frontier ordered fit]
    change Settled reading.source ([] ++ (frontier reading root {}).flatMap (calls reading)) _ _ _
    refine settled_each (frontier_pairwise ordered fit).1
      (fun other there => (found other there).nonempty) ?_ within ?_ ?_ member
    · intro other there
      refine agrees ordered (found other there).fit ?_ ?_ (rewritten_of_frontier there)
      · exact inherited_frontier (fun node place here => ((visible_iff _ _ _).mp here).2) visible there
      · exact inherited_frontier (fun node place here => ((steady_iff _ _ _).mp here).2) steady there
    · intro other there edit guest
      simp [alone other there] at guest
    · intro other there edit made
      simp at made
  have separate : Separate ((frontier reading root {}).map (asPatch reading)) := by
    constructor
    · intro patch member
      obtain ⟨inner, there, rfl⟩ := List.mem_map.mp member
      exact (found inner there).nonempty
    · exact List.pairwise_map.mpr ((frontier_pairwise ordered fit).1.imp fun distinct => distinct.1)
  rw [translated, patches_eq]
  refine shows_between separate ?_ ?_ ?_ ?_ (Nat.zero_le _)
  · intro patch member _ _
    obtain ⟨inner, there, rfl⟩ := List.mem_map.mp member
    exact each inner there
  · intro index _ _ outside edit made
    rw [calls_eq_frontier ordered fit] at made
    obtain ⟨inner, there, here⟩ := List.mem_flatMap.mp made
    have apart : inner.1.span.contains index = false := outside _ (List.mem_map_of_mem there)
    simp only [Span.contains, Bool.and_eq_false_iff, decide_eq_false_iff_not] at apart
    change ¬ inner.1.start ≤ index ∨ ¬ index < inner.1.stop at apart
    rcases within inner there edit here with inside | guest
    · exact inside.apart (by omega)
    · simp [alone inner there] at guest
  · intro patch member
    exact .inr (Nat.zero_le _)
  · intro patch member
    obtain ⟨inner, there, rfl⟩ := List.mem_map.mp member
    exact .inl ((found inner there).last.trans inSource)

end Agreement

end Unawait.Lowering
