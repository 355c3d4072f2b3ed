import Mathlib
import Unawait.Proofs.SourceTranslation

/-!
# What acceptance says of a tree

In every rewritten node some bytes are replaced. A buffer does not replace a byte twice, so if it
accepts the calls of a walk, no range that was replaced for a node has a rewritten node in it. It
does not move a byte twice either, so nothing is moved inside a moved range.
-/

namespace Unawait.Lowering

open Edit (Operation History)

/-- Two calls replace no byte both, and move no byte both. -/
def Clean (first second : Operation) : Prop :=
  (∀ here ∈ first.replaced?, ∀ there ∈ second.replaced?,
      ∀ index, here.1.contains index → ¬ there.1.contains index) ∧
    ∀ here ∈ first.moved?, ∀ there ∈ second.moved?, here.stop ≤ there.start ∨ there.stop ≤ here.start

theorem Clean.symm {first second : Operation} (clean : Clean first second) : Clean second first := by
  refine ⟨fun here found there again index inside both => ?_, fun here found there again => ?_⟩
  · exact clean.1 there again here found index both inside
  · exact (clean.2 there again here found).symm

section Accepted

variable {reading : Reading} {node : Node} {place : Place}

/-- The ranges that a rule replaces for the parent are beside its node. -/
theorem Rewrite.guests_beside {rule : Rewrite} (fits : rule.Fits node) {edit : Operation}
    (made : edit ∈ rule.guests) :
    ∀ own ∈ edit.replaced?, own.1.stop ≤ node.start ∨ node.stop ≤ own.1.start := by
  have bound {binding : Binding} (beside : binding.Beside node) (here : edit ∈ binding.edits) :
      ∀ own ∈ edit.replaced?, own.1.stop ≤ node.start ∨ node.stop ≤ own.1.start := by
    simp only [Binding.edits, List.mem_append, List.mem_map, Option.mem_toList,
      List.mem_singleton] at here
    rcases here with ⟨span, given, rfl⟩ | rfl
    · rintro own ⟨rfl⟩
      exact (beside.dropped span given).2.2
    · rintro own ⟨rfl⟩
      exact beside.apart
  cases rule with
  | name text use =>
    cases use with
    | called binding => exact bound (fits.2 binding rfl) made
    | _ => simp [Rewrite.guests, Use.guests] at made
  | key property use =>
    cases use with
    | called binding => exact bound (fits.2.2.2.2 binding rfl) made
    | _ => simp [Rewrite.guests, Use.guests] at made
  | loop number marker labelled particles left right body =>
    cases labelled with
    | none => simp [Rewrite.guests] at made
    | some offset =>
      rw [List.mem_singleton.mp made]
      simp [Operation.replaced?]
  | _ => simp [Rewrite.guests] at made

/-- A rule replaces bytes of its node, unless the rule for a part does. -/
theorem Rewrite.exists_replaced {rule : Rewrite} (fits : rule.Fits node) (nested : node.Nested)
    (rewritten : rule.isKeep = false) :
    rule.hosted node ≠ [] ∨ ∃ edit ∈ rule.edits node, ∃ own, edit.replaced? = some own ∧
      node.start ≤ own.1.start ∧ own.1.start < own.1.stop ∧ own.1.stop ≤ node.stop := by
  cases rule with
  | keep => simp [Rewrite.isKeep] at rewritten
  | call binding => exact .inl (by simp [Rewrite.hosted, Binding.edits])
  | label => exact .inl (by simp [Rewrite.hosted])
  | await opening closing =>
    obtain ⟨-, -, last, -⟩ := fits
    exact .inr ⟨_, List.mem_cons_self .., _, rfl, le_rfl, by dsimp only; omega, last⟩
  | name text use => exact .inr ⟨_, List.mem_cons_self .., _, rfl, le_rfl, fits.1, le_rfl⟩
  | key property use =>
    obtain ⟨-, above, nonempty, under, -⟩ := fits
    exact .inr ⟨_, List.mem_cons_self .., _, rfl, le_rfl, above, by dsimp only; omega⟩
  | assignName left right head tail =>
    obtain ⟨leftPart, rightPart, nonempty, ⟨-, wide, -, -⟩, rightNonempty⟩ := fits
    have leftInside := nested.2.1 _ leftPart
    have rightInside := nested.2.1 _ rightPart
    dsimp only at wide leftInside rightInside
    exact .inr ⟨_, List.mem_cons_self .., _, rfl, leftInside.1, by dsimp only; omega,
      by dsimp only; omega⟩
  | assignKey left property right =>
    obtain ⟨child, -, -, -, above, nonempty, under, -, -⟩ := fits
    have leftInside := nested.2.1 _ (Node.mem_parts_of_child child)
    dsimp only at leftInside
    exact .inr ⟨_, List.mem_cons_self .., _, rfl, leftInside.1, above, by dsimp only; omega⟩
  | loop number marker labelled particles left right body =>
    obtain ⟨-, -, last, -⟩ := fits.keyword
    have first := fits.begun
    have wide := fits.opened
    have more := fits.opening
    dsimp only at last
    exact .inr ⟨.remove particles.keyword.start particles.opening.start,
      by simp [Rewrite.edits, loopEdits], _, rfl, (Nat.le_add_right _ 3).trans first, wide,
      by dsimp only; omega⟩
  | function removed star body opening closing =>
    obtain ⟨first, nonempty, last, -⟩ := fits.owns
    exact .inr ⟨_, List.mem_cons_self .., _, rfl, first, nonempty, last⟩
  | arrowBlock removed body opening closing =>
    obtain ⟨first, nonempty, last, -⟩ := fits.1.owns
    exact .inr ⟨_, List.mem_cons_self .., _, rfl, first, nonempty, last⟩
  | arrowValue removed arrowStop body opening closing =>
    obtain ⟨first, nonempty, last, -⟩ := fits.1.owns
    exact .inr ⟨_, List.mem_cons_self .., _, rfl, first, nonempty, last⟩

/-- A node for which calls are made by the rule for a part. -/
theorem exists_guest (ordered : reading.tokens.Ordered) (fit : Fit reading node place)
    (hosts : (rewrite reading node place).hosted node ≠ []) :
    ∃ inner ∈ below reading node place, (rewrite reading inner.1 inner.2).guests ≠ [] := by
  cases form : rewrite reading node place with
  | call binding => exact exists_callee fit form
  | label => exact exists_loop ordered fit form
  | _ => simp [form, Rewrite.hosted] at hosts

theorem mem_calls_of_guests (ordered : reading.tokens.Ordered) (fit : Fit reading node place)
    {edit : Operation} (guest : edit ∈ (rewrite reading node place).guests) :
    edit ∈ calls reading (node, place) := by
  obtain ⟨before, after, split, -⟩ := calls_split ordered fit (List.ne_nil_of_mem guest)
  rw [split]
  simp [guest]

/-- In every rewritten node some bytes are replaced. -/
theorem exists_replaced (ordered : reading.tokens.Ordered) (fit : Fit reading node place)
    (rewritten : (rewrite reading node place).isKeep = false) :
    ∃ edit ∈ calls reading (node, place), ∃ own, edit.replaced? = some own ∧
      node.start ≤ own.1.start ∧ own.1.start < own.1.stop ∧ own.1.stop ≤ node.stop := by
  revert fit rewritten
  refine @below_induction reading (fun node place => Fit reading node place →
    (rewrite reading node place).isKeep = false → ∃ edit ∈ calls reading (node, place), ∃ own,
      edit.replaced? = some own ∧ node.start ≤ own.1.start ∧ own.1.start < own.1.stop ∧
        own.1.stop ≤ node.stop) ?_ node place
  intro node place ih fit rewritten
  rw [calls_eq ordered fit]
  -- a host replaces nothing itself, but the part that makes its calls is rewritten
  rcases Rewrite.exists_replaced (fit.carries ordered).fits fit.nested rewritten with hosts | own
  · obtain ⟨inner, member, -⟩ := exists_guest ordered fit hosts
    obtain ⟨placed, part, -, fits, first, -, last⟩ := inner_of_below ordered fit member
    obtain ⟨low, high⟩ := fit.nested.2.1 _ (mem_parts_of_places part)
    obtain ⟨edit, made, own, replaced, above, nonempty, under⟩ :=
      ih inner member fits (rewritten_of_below member)
    refine ⟨edit, List.mem_append_left _ (List.mem_flatMap.mpr ⟨inner, member, made⟩), own, replaced,
      by omega, nonempty, by omega⟩
  · obtain ⟨edit, made, rest⟩ := own
    exact ⟨edit, List.mem_append_right _ made, rest⟩

theorem calls_sublist {placed : (Field × Node) × Place} (part : placed ∈ places node place) :
    (calls reading (placed.1.2, placed.2)).Sublist (calls reading (node, place)) := by
  rw [calls, calls, script_eq reading false node place]
  refine List.Sublist.trans ?_ (List.sublist_append_right _ _)
  refine List.Sublist.trans ?_ (List.sublist_append_left _ _)
  obtain ⟨before, after, whole⟩ := List.append_of_mem part
  rw [partsScript, whole, List.flatMap_append, List.flatMap_cons]
  exact (List.sublist_append_left _ _).trans (List.sublist_append_right _ _)

/-- A range that is replaced for a node holds no rewritten node. -/
theorem visible_of_clean (ordered : reading.tokens.Ordered) (fit : Fit reading node place)
    (clean : (calls reading (node, place)).Pairwise Clean) : Visible reading node place := by
  induction node using Node.parts_induction generalizing place with
  | _ node ih =>
    refine (visible_iff _ _ _).mpr ⟨?_, ?_⟩
    · rw [calls_eq ordered fit] at clean
      obtain ⟨deeper, -, across⟩ := List.pairwise_append.mp clean
      obtain ⟨-, apart⟩ := List.pairwise_flatMap.mp deeper
      rintro inner member edit made own replaced ⟨above, under⟩
      obtain ⟨-, -, -, fits, -, -, -⟩ := inner_of_below ordered fit member
      obtain ⟨other, call, range, again, first, nonempty, last⟩ :=
        exists_replaced ordered fits (rewritten_of_below member)
      -- the first byte replaced in the inner node is replaced for the outer one as well
      have inOwn : own.1.contains range.1.start = true := by
        simp only [Span.contains, Bool.and_eq_true, decide_eq_true_eq]
        omega
      have inRange : range.1.contains range.1.start = true := by
        simp only [Span.contains, Bool.and_eq_true, decide_eq_true_eq]
        omega
      suffices pair : Clean other edit from pair.1 _ again _ replaced _ inRange inOwn
      rcases List.mem_append.mp made with here | hosted
      · exact across other (List.mem_flatMap.mpr ⟨inner, member, call⟩) edit here
      · obtain ⟨guest, there, guests⟩ := exists_guest ordered fit (List.ne_nil_of_mem hosted)
        obtain ⟨-, -, -, guestFit, -, -, -⟩ := inner_of_below ordered fit there
        rw [← guests_eq_hosted fit there guests] at hosted
        have beside := Rewrite.guests_beside (guestFit.carries ordered).fits hosted own replaced
        -- the part that makes the call is beside the range, so it is not the node inside
        have differs : inner ≠ guest := by
          rintro rfl
          omega
        have symmetric : Std.Symm fun first second : Node × Place =>
            ∀ here ∈ calls reading first, ∀ there ∈ calls reading second, Clean here there := by
          constructor
          intro first second pairs here made there again
          exact (pairs there again here made).symm
        exact apart.forall member there differs other call edit (mem_calls_of_guests ordered guestFit hosted)
    · intro placed part
      exact ih placed.1 (mem_parts_of_places part) (fit.part part) (clean.sublist (calls_sublist part))

/-- In a range that is moved for a node nothing else is moved. -/
theorem steady_of_clean (ordered : reading.tokens.Ordered) (fit : Fit reading node place)
    (clean : (calls reading (node, place)).Pairwise Clean) : Steady reading node place := by
  induction node using Node.parts_induction generalizing place with
  | _ node ih =>
    refine (steady_iff _ _ _).mpr ⟨?_, ?_⟩
    · rw [calls_eq ordered fit] at clean
      obtain ⟨-, -, across⟩ := List.pairwise_append.mp clean
      intro inner member edit made move moved above under other call
      obtain ⟨-, -, -, fits, -, -, -⟩ := inner_of_below ordered fit member
      rcases calls_within ordered fits other call with within | guest
      · cases again : other.moved? with
        | none => rfl
        | some range =>
          have apart := (across other (List.mem_flatMap.mpr ⟨inner, member, call⟩) edit made).2
            range again move moved
          cases other <;> simp only [Operation.moved?, reduceCtorEq, Option.some.injEq] at again
          subst again
          simp only [Operation.Within] at within
          dsimp only at apart
          omega
      · exact Rewrite.moved_of_guests guest
    · intro placed part
      exact ih placed.1 (mem_parts_of_places part) (fit.part part)
        (clean.sublist (calls_sublist part))

end Accepted

end Unawait.Lowering
