import Mathlib
import Unawait.Proofs.Agreement

/-!
# Nodes that are rewritten by the rule for a part

A call gets the receiver from the rule for its callee, and a label its `try` from the rule for the
loop in it. The calls made for such a host come in one piece among those made in the part, and the
rest of what is made in the part stays inside it. So the host may be looked at as if these calls
were made last, and its text is put together like that of any other node.
-/

namespace Unawait.Lowering

open Edit (Operation History Settled Shows)

section Hosts

variable {reading : Reading} {node : Node} {place : Place}

/-- The calls that a rule makes for its parent come in one piece. -/
theorem calls_split (ordered : reading.tokens.Ordered) (fit : Fit reading node place)
    (guests : (rewrite reading node place).guests ≠ []) :
    ∃ before after, calls reading (node, place) =
        before ++ ((rewrite reading node place).guests ++ after) ∧
      ∀ edit ∈ before ++ after, edit.Within node.start node.stop := by
  have fits := (fit.carries ordered).fits
  have inside := below_within ordered fit fun inner member => by
    obtain ⟨-, -, -, innerFit, -, -, -⟩ := inner_of_below ordered fit member
    exact calls_within ordered innerFit
  rw [calls_eq ordered fit]
  generalize rewrite reading node place = rule at guests fits
  cases rule with
  | name text use =>
    cases use with
    | called binding =>
      refine ⟨(below reading node place).flatMap (calls reading) ++ [.overwrite node.start node.stop text],
        [], by simp [Rewrite.edits, Rewrite.guests, Use.guests, Use.edits], ?_⟩
      intro edit made
      simp only [List.append_nil, List.mem_append, List.mem_singleton] at made
      rcases made with deeper | rfl
      · exact inside edit deeper
      · exact ⟨le_rfl, fits.1, le_rfl⟩
    | _ => simp [Rewrite.guests, Use.guests] at guests
  | key property use =>
    cases use with
    | called binding =>
      obtain ⟨-, above, nonempty, under, -⟩ := fits
      refine ⟨(below reading node place).flatMap (calls reading) ++
        [.overwrite node.start property.start "$uper(".toList,
          .overwrite property.stop node.stop ")".toList],
        [], by simp [Rewrite.edits, Rewrite.guests, Use.guests, Use.edits], ?_⟩
      intro edit made
      simp only [List.append_nil, List.mem_append, List.mem_cons, List.not_mem_nil, or_false] at made
      rcases made with deeper | rfl | rfl
      · exact inside edit deeper
      · exact ⟨le_rfl, above, by omega⟩
      · exact ⟨by omega, under, le_rfl⟩
    | _ => simp [Rewrite.guests, Use.guests] at guests
  | loop number marker labelled particles left right body =>
    cases labelled with
    | none => simp [Rewrite.guests] at guests
    | some offset =>
      have alone : (Rewrite.loop number marker none particles left right body).Fits node :=
        { fits with outside := by simp }
      have full : node.start < node.stop := by
        obtain ⟨first, second, third, -⟩ := fits.keyword
        dsimp only at *
        omega
      refine ⟨(below reading node place).flatMap (calls reading),
        ((Rewrite.loop number marker none particles left right body).edits node).tail,
        by simp [Rewrite.edits, Rewrite.guests, loopEdits], ?_⟩
      intro edit made
      rcases List.mem_append.mp made with deeper | own
      · exact inside edit deeper
      · have within := Rewrite.edits_within alone fit.nested (fun _ => full) (List.mem_of_mem_tail own)
        simpa [Rewrite.guests] using within
  | _ => simp [Rewrite.guests] at guests

/-- The calls made for a node come in one piece among the calls below it. -/
theorem host_split (ordered : reading.tokens.Ordered) (fit : Fit reading node place)
    {inner : Node × Place} (member : inner ∈ below reading node place)
    (guests : (rewrite reading inner.1 inner.2).guests ≠ []) :
    ∃ before after, (below reading node place).flatMap (calls reading) =
        before ++ ((rewrite reading node place).hosted node ++ after) ∧
      ∀ edit ∈ before ++ after, ∃ other ∈ below reading node place,
        edit.Within other.1.start other.1.stop := by
  have same := guests_eq_hosted fit member guests
  have pairs := (frontier_pairwise ordered fit).2
  have within : ∀ inner ∈ below reading node place, ∀ edit ∈ calls reading inner,
      edit.Within inner.1.start inner.1.stop ∨
        edit ∈ (rewrite reading inner.1 inner.2).guests := by
    intro inner member
    obtain ⟨-, -, -, fits, -, -, -⟩ := inner_of_below ordered fit member
    exact calls_within ordered fits
  obtain ⟨-, -, -, innerFit, -, -, -⟩ := inner_of_below ordered fit member
  obtain ⟨first, last, split, stays⟩ := calls_split ordered innerFit guests
  obtain ⟨earlier, later, whole⟩ := List.append_of_mem member
  rw [whole] at pairs within ⊢
  obtain ⟨-, behind, across⟩ := List.pairwise_append.mp pairs
  have alone (other : Node × Place) (there : other ∈ earlier ∨ other ∈ later) :
      (rewrite reading other.1 other.2).guests = [] := by
    rcases there with before | after
    · exact ((across other before inner (by simp)).2).resolve_right guests
    · exact (((List.pairwise_cons.mp behind).1 other after).2).resolve_left guests
  refine ⟨earlier.flatMap (calls reading) ++ first, last ++ later.flatMap (calls reading), ?_, ?_⟩
  · rw [← same, List.flatMap_append, List.flatMap_cons, show calls reading inner = _ from split]
    simp
  · intro edit made
    have choose (other : Node × Place) (there : other ∈ earlier ∨ other ∈ later)
        (here : edit ∈ calls reading other) :
        ∃ other ∈ earlier ++ inner :: later, edit.Within other.1.start other.1.stop := by
      have listed : other ∈ earlier ++ inner :: later := by
        rcases there with before | after <;> simp [*]
      refine ⟨other, listed, ?_⟩
      simpa [alone other there] using within other listed edit here
    simp only [List.mem_append, List.mem_flatMap] at made
    rcases made with (⟨other, there, here⟩ | here) | here | ⟨other, there, here⟩
    · exact choose other (.inl there) here
    · exact ⟨inner, by simp, stays edit (by simp [here])⟩
    · exact ⟨inner, by simp, stays edit (by simp [here])⟩
    · exact choose other (.inr there) here

/-- A part that makes calls for its node is one of the nearest rewritten nodes. -/
theorem mem_below_of_guests {placed : (Field × Node) × Place} (part : placed ∈ places node place)
    (guests : (rewrite reading placed.1.2 placed.2).guests ≠ []) :
    (placed.1.2, placed.2) ∈ below reading node place := by
  refine mem_below.mpr ⟨placed, part, ?_⟩
  have rewritten : (rewrite reading placed.1.2 placed.2).isKeep = false := by
    cases form : rewrite reading placed.1.2 placed.2 <;> rw [form] at guests <;>
      simp [Rewrite.guests] at guests <;> rfl
  rw [frontier_of_rewritten rewritten]
  simp

/-- A call is changed for its callee. -/
theorem exists_callee (fit : Fit reading node place) {binding : Binding}
    (form : rewrite reading node place = .call binding) :
    ∃ inner ∈ below reading node place, (rewrite reading inner.1 inner.2).guests ≠ [] := by
  have kind : node.is .callExpression = true := by
    have construct := rewrite_of reading node place
    rw [form] at construct
    exact construct.1
  have named : node.kind = .callExpression := by simpa [Node.is] using kind
  have plain : node.opensScope = false := by simp [Node.opensScope, Node.is, named, Kind.ownsReceiver]
  simp only [rewrite, plain, named, Bool.false_eq_true, if_false, callRewrite] at form
  cases found : node.parts.find? fun part => part.1 == .callee && part.2.is .superMember with
  | none => simp [found] at form
  | some part =>
    rw [found] at form
    have replaced : replaces place.scope = true := by
      by_contra other
      simp [other] at form
    obtain ⟨placed, held, same⟩ := @exists_place node place _ (List.mem_of_find?_eq_some found)
    obtain ⟨field, callee⟩ := part
    obtain ⟨rfl, member⟩ : field = .callee ∧ callee.is .superMember = true := by
      simpa using List.find?_some found
    obtain ⟨inherited, slot⟩ := mem_placesFrom held
    have calleeFit := fit.part held
    rw [same] at calleeFit inherited slot
    rw [scopeOf_of_plain plain] at inherited
    have shape : Shape.Member callee :=
      shape_of_member member ((Node.wellFormed_iff _ _).mp calleeFit.wellFormed).2.1
    have calleeNamed : callee.kind = .superMember := by simpa [Node.is] using member
    have calleePlain : callee.opensScope = false := by
      simp [Node.opensScope, Node.is, calleeNamed, Kind.ownsReceiver]
    have use : useOf reading.tokens callee placed.2.parent =
        .called (bindingOf reading.tokens callee node) := by
      simp [useOf, slot, calledBy?, kind]
    have guests : (rewrite reading placed.1.2 placed.2).guests ≠ [] := by
      rw [same]
      simp only [rewrite, calleePlain, calleeNamed, Bool.false_eq_true, if_false, memberRewrite,
        inherited, replaced, slot, isWritten, Bool.not_false, Bool.and_self, if_true]
      rw [slot] at use
      cases computed : callee.flags.computed with
      | false => simp [use, Rewrite.guests, Use.guests, Binding.edits]
      | true =>
        obtain ⟨property, child, -⟩ := shape.2 computed
        simp [show callee.child? .property = some property from child, use, Rewrite.guests, Use.guests,
          Binding.edits]
    exact ⟨_, mem_below_of_guests held guests, guests⟩

/-- A label is changed for its loop. -/
theorem exists_loop (ordered : reading.tokens.Ordered) (fit : Fit reading node place)
    (form : rewrite reading node place = .label) :
    ∃ inner ∈ below reading node place, (rewrite reading inner.1 inner.2).guests ≠ [] := by
  have kind : node.is .labeledStatement = true := by
    have construct := rewrite_of reading node place
    rwa [form] at construct
  have named : node.kind = .labeledStatement := by simpa [Node.is] using kind
  have plain : node.opensScope = false := by simp [Node.opensScope, Node.is, named, Kind.ownsReceiver]
  simp only [rewrite, plain, named, Bool.false_eq_true, if_false, labelRewrite] at form
  have lowered : (node.parts.any fun part => part.1 == .body && lowersLoop place.scope part.2) = true := by
    by_contra other
    simp [other] at form
  obtain ⟨part, member, chosen⟩ := List.any_eq_true.mp lowered
  obtain ⟨placed, held, same⟩ := @exists_place node place _ member
  obtain ⟨field, loop⟩ := part
  simp only [lowersLoop, Bool.and_eq_true, beq_iff_eq] at chosen
  obtain ⟨rfl, ⟨⟨⟨⟨isLoop, awaits⟩, async⟩, hasLeft⟩, hasRight⟩, hasBody⟩ := chosen
  obtain ⟨inherited, slot⟩ := mem_placesFrom held
  have loopFit := fit.part held
  rw [same] at loopFit inherited slot
  rw [scopeOf_of_plain plain] at inherited
  have loopNamed : loop.kind = .forOfStatement := by simpa [Node.is] using isLoop
  have loopPlain : loop.opensScope = false := by
    simp [Node.opensScope, Node.is, loopNamed, Kind.ownsReceiver]
  have shaped := ((Node.wellFormed_iff _ _).mp loopFit.wellFormed).2.1
  have shape : Shape.Loop reading.tokens loop := by
    simpa [Node.shaped, loopNamed, awaits] using shaped
  obtain ⟨left, target⟩ := Option.isSome_iff_exists.mp hasLeft
  obtain ⟨right, iterable⟩ := Option.isSome_iff_exists.mp hasRight
  obtain ⟨body, inner⟩ := Option.isSome_iff_exists.mp hasBody
  obtain ⟨particles, found, -⟩ := findParticles_ok ordered shape target iterable inner
  have guests : (rewrite reading placed.1.2 placed.2).guests ≠ [] := by
    rw [same]
    simp only [rewrite, loopPlain, loopNamed, Bool.false_eq_true, if_false, awaits, if_true, loopRewrite,
      inherited, async, target, iterable, inner, found, slot, labelledAt?, kind, Rewrite.guests]
    simp
  exact ⟨_, mem_below_of_guests held guests, guests⟩

variable {history : History}

/-- A range that one of the calls made for a node replaces, and the others do not touch. -/
theorem shows_hosted {before earlier later after : List Operation} {edit : Operation} {low high : Nat}
    {text : Text} (untouched : history.Untouched node.start node.stop)
    (split : (below reading node place).flatMap (calls reading) =
      before ++ (earlier ++ edit :: later ++ after))
    (stays : ∀ edit ∈ before ++ after, ∃ other ∈ below reading node place,
      edit.Within other.1.start other.1.stop)
    (replaced : edit.replaced? = some (⟨low, high⟩, text)) (above : node.start ≤ low)
    (nonempty : low < high) (under : high ≤ node.stop) (outside : Outside reading node place low high)
    (ahead : ∀ other ∈ earlier, other.Apart low high)
    (behind : ∀ other ∈ later, other.Apart low high) :
    Shows reading.source (history ++ (below reading node place).flatMap (calls reading)) low high
      text.encode := by
  have apart : ∀ edit ∈ before ++ after, edit.Apart low high := by
    intro edit made
    obtain ⟨other, there, within⟩ := stays edit made
    exact within.apart (outside other there)
  have free : History.Untouched (history ++ before ++ earlier) low high :=
    untouched_append (untouched_append (fun edit made => (untouched edit made).mono above under)
      fun edit made => apart edit (List.mem_append_left _ made)) ahead
  have rest : ∀ edit ∈ later ++ after, edit.Apart low high := List.forall_mem_append.mpr
    ⟨behind, fun edit made => apart edit (List.mem_append_right _ made)⟩
  have now : Shows reading.source (history ++ before ++ earlier ++ [edit]) low high text.encode :=
    Shows.of_replaced free nonempty replaced
  have shown := now.frame rest
  rw [split]
  simpa using shown

/-- A call shows its text when its parts were visited. -/
theorem call_agrees (ordered : reading.tokens.Ordered) (fit : Fit reading node place)
    (visible : Visible reading node place) {binding : Binding}
    (form : rewrite reading node place = .call binding)
    (untouched : history.Untouched node.start node.stop)
    (prepared : Prepared reading node place
      (history ++ (below reading node place).flatMap (calls reading))) :
    Settled reading.source (history ++ (below reading node place).flatMap (calls reading)) node.start
      node.stop ((Rewrite.call binding).text
        (between reading.source (patchesBelow reading node place)) node) := by
  obtain ⟨inner, member, guests⟩ := exists_callee fit form
  obtain ⟨before, after, split, stays⟩ := host_split ordered fit member guests
  have clear : ∀ edit ∈ binding.edits, Clears reading node place edit := fun edit made =>
    hosted_clear ordered fit visible (by rw [form]; exact made)
  have own (low high : Nat) (above : node.start ≤ low) (forward : low ≤ high) (under : high ≤ node.stop)
      (first : Outside reading node place low low) (last : Outside reading node place high high)
      (beside : ∀ edit ∈ binding.edits, edit.Apart low high) :=
    prepared.own ordered fit above forward under first last (by rw [form]; exact beside)
  have fits := (fit.carries ordered).fits
  rw [form] at fits split
  obtain ⟨⟨first, wide, last, -⟩, dropped⟩ := fits
  have opens : Clears reading node place
      (.overwrite binding.parenthesis.start binding.parenthesis.stop binding.text) :=
    clear _ (by simp [Binding.edits])
  have atStart : Outside reading node place node.start node.start :=
    outside_of_span ordered fit (.inl le_rfl)
  have atStop : Outside reading node place node.stop node.stop :=
    outside_of_span ordered fit (.inr le_rfl)
  rw [Rewrite.hosted] at split
  cases given : binding.dropped with
  | none =>
    -- the parenthesis is the only range that changes
    have edits_eq : binding.edits = [.overwrite binding.parenthesis.start binding.parenthesis.stop
        binding.text] := by simp [Binding.edits, given]
    rw [edits_eq] at own split
    have start := own node.start binding.parenthesis.start le_rfl first (by omega) atStart
      (opens.cut (by simp [Operation.cuts])) (by simp [Operation.Apart])
    have rest := own binding.parenthesis.stop node.stop (by omega) last le_rfl
      (opens.cut (by simp [Operation.cuts])) atStop (by simp [Operation.Apart])
    have bound := @shows_hosted _ _ _ _ _ [] [] _ _ _ _ _ untouched split stays rfl first wide last
      (opens.replaced rfl) (by simp) (by simp)
    simpa [Rewrite.text, aroundTypes, given] using ((start.append bound).append rest).2.1 (by omega)
  | some types =>
    -- the type arguments go as well, in front of the parenthesis
    obtain ⟨full, ahead, part, held, same⟩ := dropped types given
    have within := fit.nested.2.1 _ held
    have low : node.start ≤ types.start := by rw [← same]; exact within.1
    have drops : Clears reading node place (.remove types.start types.stop) :=
      clear _ (by simp [Binding.edits, given])
    have edits_eq : binding.edits = [.remove types.start types.stop,
        .overwrite binding.parenthesis.start binding.parenthesis.stop binding.text] := by
      simp [Binding.edits, given]
    rw [edits_eq] at own split
    have start := own node.start types.start le_rfl low (by omega) atStart
      (drops.cut (by simp [Operation.cuts])) (by simp [Operation.Apart]; omega)
    have middle := own types.stop binding.parenthesis.start (by omega) ahead (by omega)
      (drops.cut (by simp [Operation.cuts])) (opens.cut (by simp [Operation.cuts]))
      (by simp [Operation.Apart])
    have rest := own binding.parenthesis.stop node.stop (by omega) last le_rfl
      (opens.cut (by simp [Operation.cuts])) atStop (by simp [Operation.Apart]; omega)
    have gone := @shows_hosted _ _ _ _ _ [] [_] _ _ _ _ _ untouched split stays rfl low full (by omega)
      (drops.replaced rfl) (by simp) (by simp [Operation.Apart, ahead])
    have bound := @shows_hosted _ _ _ _ _ [_] [] _ _ _ _ _ untouched split stays rfl first wide last
      (opens.replaced rfl) (by simp [Operation.Apart, ahead]) (by simp)
    simpa [Rewrite.text, aroundTypes, given] using
      ((((start.append gone).append middle).append bound).append rest).2.1 (by omega)

/-- A label shows its text when its parts were visited. -/
theorem label_agrees (ordered : reading.tokens.Ordered) (fit : Fit reading node place)
    (form : rewrite reading node place = .label)
    (untouched : history.Untouched node.start node.stop)
    (prepared : Prepared reading node place
      (history ++ (below reading node place).flatMap (calls reading))) :
    Settled reading.source (history ++ (below reading node place).flatMap (calls reading)) node.start
      node.stop (Rewrite.label.text
        (between reading.source (patchesBelow reading node place)) node) := by
  obtain ⟨inner, member, guests⟩ := exists_loop ordered fit form
  obtain ⟨before, after, split, stays⟩ := host_split ordered fit member guests
  have owns := (fit.carries ordered).fits
  rw [form] at owns split
  have outside := outside_of_owns ordered fit owns
  obtain ⟨-, -, last, -⟩ := owns
  dsimp only at last
  have atStart : Outside reading node place node.start node.start :=
    outside_of_span ordered fit (.inl le_rfl)
  have atStop : Outside reading node place node.stop node.stop :=
    outside_of_span ordered fit (.inr le_rfl)
  have apart : ∀ edit ∈ before ++ after, edit.Apart node.start (node.start + 1) := by
    intro edit made
    obtain ⟨other, there, within⟩ := stays edit made
    exact within.apart (outside other there)
  have blank : History.Untouched (history ++ before) node.start (node.start + 1) :=
    untouched_append (fun edit made => (untouched edit made).mono le_rfl last)
      fun edit made => apart edit (by simp [made])
  have rest := prepared.own ordered fit (Nat.le_succ node.start) last le_rfl
    (outside.mono (Nat.le_succ _) le_rfl) atStop (by
      rw [form]
      simp [Rewrite.hosted, Operation.Apart])
  have separate := separate_below ordered fit
  -- the first byte is the label's own, so nothing but the call for it touches it
  have byte : Shows reading.source (history ++ before) node.start (node.start + 1)
      (between reading.source (patchesBelow reading node place) node.start (node.start + 1)) := by
    refine shows_between separate ?_ ?_ ?_ ?_ (Nat.le_succ _) <;> rw [patchesBelow_eq] at *
    · intro patch made above under
      obtain ⟨other, there, rfl⟩ := List.mem_map.mp made
      have full := separate.1 _ made
      have cut : other.1.span.stop ≤ node.start ∨ node.start + 1 ≤ other.1.span.start :=
        outside other there
      simp only [asPatch] at above under full
      omega
    · intro index above under _
      obtain rfl : index = node.start := by omega
      exact blank
    · intro patch made
      obtain ⟨other, there, rfl⟩ := List.mem_map.mp made
      exact atStart other there
    · intro patch made
      obtain ⟨other, there, rfl⟩ := List.mem_map.mp made
      exact (outside.mono (Nat.le_succ _) le_rfl) other there
  have opened : Shows reading.source (history ++ (below reading node place).flatMap (calls reading))
      node.start (node.start + 1) (Text.encode "try\x7b".toList ++
        between reading.source (patchesBelow reading node place) node.start (node.start + 1)) := by
    have shown := (byte.insertAfter (Nat.lt_succ_self _) "try\x7b".toList).frame
      (fun edit made => apart edit (List.mem_append_right _ made))
    rw [split, Rewrite.hosted]
    simpa using shown
  have whole := (opened.append rest).2.1 (by omega)
  rw [Rewrite.text, between_append (Nat.le_succ node.start) last]
  simpa using whole

end Hosts

end Unawait.Lowering
