import Mathlib
import Unawait.Proofs.Translation

/-!
# Edits and translation agree, rule by rule

A node agrees with its translation if the calls made in it, after any calls elsewhere, make
its range show the translation. If the nearest rewritten nodes below a node agree, every range
of the node that cuts none of them shows what it becomes before the rule for the node makes its
own calls. From there each rule is a matter of putting ranges together: a range is kept, replaced,
given a text at one of its ends, or moved, and the calls for one range leave the others alone.
-/

namespace Unawait.Lowering

open Edit (Operation History Settled Shows)

/-- A walk through a subtree makes its node show its translation, whatever was done elsewhere. -/
def Agrees (reading : Reading) (inner : Node × Place) : Prop :=
  ∀ history : History, history.Untouched inner.1.start inner.1.stop →
    Settled reading.source (history ++ calls reading inner) inner.1.start inner.1.stop
      (translation reading inner)

section Agreement

variable {reading : Reading} {node : Node} {place : Place}

theorem untouched_append {first second : History} {low high : Nat}
    (before : first.Untouched low high) (after : History.Untouched second low high) :
    History.Untouched (first ++ second) low high := by
  intro operation member
  rcases List.mem_append.mp member with here | there
  · exact before operation here
  · exact after operation there

/-- Distinct nodes show their translations after all their calls. -/
theorem settled_each {nodes : List (Node × Place)} (pairs : nodes.Pairwise (Distinct reading))
    (full : ∀ inner ∈ nodes, inner.1.start < inner.1.stop)
    (agrees : ∀ inner ∈ nodes, Agrees reading inner)
    (within : ∀ inner ∈ nodes, ∀ edit ∈ calls reading inner,
      edit.Within inner.1.start inner.1.stop ∨ edit ∈ (rewrite reading inner.1 inner.2).guests)
    (guests : ∀ inner ∈ nodes, ∀ edit ∈ (rewrite reading inner.1 inner.2).guests,
      ∀ other ∈ nodes, edit.Apart other.1.start other.1.stop)
    {history : History} (untouched : ∀ inner ∈ nodes, history.Untouched inner.1.start inner.1.stop)
    {inner : Node × Place} (member : inner ∈ nodes) :
    Settled reading.source (history ++ nodes.flatMap (calls reading)) inner.1.start inner.1.stop
      (translation reading inner) := by
  obtain ⟨before, after, rfl⟩ := List.append_of_mem member
  have apart (other : Node × Place) (there : other ∈ before ++ inner :: after)
      (distinct : min other.1.stop inner.1.stop ≤ max other.1.start inner.1.start) :
      ∀ edit ∈ calls reading other, edit.Apart inner.1.start inner.1.stop := by
    intro edit made
    have otherFull := full other there
    have innerFull := full inner member
    rcases within other there edit made with inside | guest
    · exact inside.apart (by omega)
    · exact guests other there edit guest inner member
  obtain ⟨-, later, across⟩ := List.pairwise_append.mp pairs
  have earlier : ∀ edit ∈ before.flatMap (calls reading), edit.Apart inner.1.start inner.1.stop := by
    intro edit made
    obtain ⟨other, there, here⟩ := List.mem_flatMap.mp made
    exact apart other (by simp [there]) (across other there inner (by simp)).1 edit here
  have behind : ∀ edit ∈ after.flatMap (calls reading), edit.Apart inner.1.start inner.1.stop := by
    intro edit made
    obtain ⟨other, there, here⟩ := List.mem_flatMap.mp made
    have distinct : min inner.1.stop other.1.stop ≤ max inner.1.start other.1.start :=
      ((List.pairwise_cons.mp later).1 other there).1
    exact apart other (by simp [there]) (by omega) edit here
  -- the calls for the nodes in front leave this one untouched, those behind leave it settled
  have settled := (agrees inner member (history ++ before.flatMap (calls reading))
    (untouched_append (untouched inner member) earlier)).frame behind
  simpa using settled

/-- The calls made for a node by the rule for a part do not touch the rewritten nodes below. -/
theorem hosted_apart (ordered : reading.tokens.Ordered) (fit : Fit reading node place)
    (visible : Visible reading node place) {edit : Operation}
    (made : edit ∈ (rewrite reading node place).hosted node) {inner : Node × Place}
    (member : inner ∈ below reading node place) : edit.Apart inner.1.start inner.1.stop := by
  have spares := hosted_clear ordered fit visible made inner member
  have fits := (fit.carries ordered).fits
  generalize rewrite reading node place = rule at made fits
  cases rule with
  | call binding =>
    simp only [Rewrite.hosted, Binding.edits, List.mem_append, List.mem_map, Option.mem_toList,
      List.mem_singleton] at made
    rcases made with ⟨span, given, rfl⟩ | rfl
    · exact spares.2 _ rfl
    · exact spares.2 _ rfl
  | label =>
    obtain ⟨placed, part, -, -, first, nonempty, -⟩ := inner_of_below ordered fit member
    obtain ⟨above, -⟩ := fit.nested.2.1 _ (mem_parts_of_places part)
    have own := outside_of_owns ordered fit fits inner member
    rw [List.mem_singleton.mp made]
    simp only [Operation.Apart]
    omega
  | _ => simp [Rewrite.hosted] at made

/-- The state of a node whose parts were visited. -/
structure Prepared (reading : Reading) (node : Node) (place : Place) (history : History) : Prop where
  each : ∀ inner ∈ below reading node place,
    Settled reading.source history inner.1.start inner.1.stop (translation reading inner)
  blank : ∀ low high, node.start ≤ low → low < high → high ≤ node.stop →
    Outside reading node place low high →
    (∀ edit ∈ (rewrite reading node place).hosted node, edit.Apart low high) →
    history.Untouched low high

theorem prepared (ordered : reading.tokens.Ordered) (fit : Fit reading node place)
    (visible : Visible reading node place)
    (agrees : ∀ inner ∈ below reading node place, Agrees reading inner) {history : History}
    (untouched : history.Untouched node.start node.stop) :
    Prepared reading node place (history ++ (below reading node place).flatMap (calls reading)) := by
  have within : ∀ inner ∈ below reading node place, ∀ edit ∈ calls reading inner,
      edit.Within inner.1.start inner.1.stop ∨
        edit ∈ (rewrite reading inner.1 inner.2).guests := by
    intro inner member
    obtain ⟨-, -, -, fits, -, -, -⟩ := inner_of_below ordered fit member
    exact calls_within ordered fits
  have hosted : ∀ inner ∈ below reading node place,
      ∀ edit ∈ (rewrite reading inner.1 inner.2).guests,
        edit ∈ (rewrite reading node place).hosted node := by
    intro inner member edit guest
    rwa [guests_eq_hosted fit member (List.ne_nil_of_mem guest)] at guest
  constructor
  · intro inner member
    refine settled_each (frontier_pairwise ordered fit).2 ?_ agrees within ?_ ?_ member
    · intro other there
      obtain ⟨-, -, -, -, -, full, -⟩ := inner_of_below ordered fit there
      exact full
    · intro other there edit guest another here
      exact hosted_apart ordered fit visible (hosted other there edit guest) here
    · intro other there edit made
      obtain ⟨placed, part, -, -, first, -, last⟩ := inner_of_below ordered fit there
      obtain ⟨low, high⟩ := fit.nested.2.1 _ (mem_parts_of_places part)
      exact (untouched edit made).mono (low.trans first) (last.trans high)
  · intro low high above nonempty under outside beside
    refine untouched_append (fun edit made => (untouched edit made).mono above under) ?_
    intro edit made
    obtain ⟨inner, member, here⟩ := List.mem_flatMap.mp made
    rcases within inner member edit here with inside | guest
    · exact inside.apart (outside inner member)
    · exact beside edit (hosted inner member edit guest)

variable {history : History} {low high : Nat}

/-- The patches below a node are separate. -/
theorem separate_below (ordered : reading.tokens.Ordered) (fit : Fit reading node place) :
    Separate (patchesBelow reading node place) := by
  rw [patchesBelow_eq]
  constructor
  · intro patch member
    obtain ⟨inner, there, rfl⟩ := List.mem_map.mp member
    obtain ⟨-, -, -, -, -, full, -⟩ := inner_of_below ordered fit there
    exact full
  · exact List.pairwise_map.mpr ((frontier_pairwise ordered fit).2.imp fun distinct => distinct.1)

/-- A range of a node that cuts no rewritten node shows what it becomes. -/
theorem Prepared.own (prepared : Prepared reading node place history)
    (ordered : reading.tokens.Ordered) (fit : Fit reading node place) (above : node.start ≤ low)
    (forward : low ≤ high) (under : high ≤ node.stop)
    (first : Outside reading node place low low) (last : Outside reading node place high high)
    (beside : ∀ edit ∈ (rewrite reading node place).hosted node, edit.Apart low high) :
    Shows reading.source history low high
      (between reading.source (patchesBelow reading node place) low high) := by
  have separate := separate_below ordered fit
  rw [patchesBelow_eq] at separate ⊢
  refine shows_between separate ?_ ?_ ?_ ?_ forward
  · intro patch member _ _
    obtain ⟨inner, there, rfl⟩ := List.mem_map.mp member
    exact prepared.each inner there
  · intro index here there outside
    refine prepared.blank index (index + 1) (by omega) (by omega) (by omega) ?_ ?_
    · intro inner member
      have apart : inner.1.span.contains index = false := outside _ (List.mem_map_of_mem member)
      simp only [Span.contains, Bool.and_eq_false_iff, decide_eq_false_iff_not] at apart
      change ¬ inner.1.start ≤ index ∨ ¬ index < inner.1.stop at apart
      omega
    · intro edit made
      exact (beside edit made).mono here there
  · intro patch member
    obtain ⟨inner, there, rfl⟩ := List.mem_map.mp member
    exact first inner there
  · intro patch member
    obtain ⟨inner, there, rfl⟩ := List.mem_map.mp member
    exact last inner there

/-! ### The offsets of a call -/

theorem Clears.cut {edit : Operation} (clears : Clears reading node place edit) {offset : Nat}
    (cut : offset ∈ edit.cuts) : Outside reading node place offset offset :=
  fun inner member => ((clears inner member).1 offset cut).symm

theorem Clears.replaced {edit : Operation} (clears : Clears reading node place edit) {range : Span}
    {text : Text} (replaced : edit.replaced? = some (range, text)) :
    Outside reading node place range.start range.stop :=
  fun inner member => ((clears inner member).2 _ replaced).symm

/-! ### Rules that change their own node -/

/-- A node whose parts were visited and for which no other rule makes calls. -/
structure Ready (reading : Reading) (node : Node) (place : Place) (history : History) : Prop where
  own : ∀ {low high}, node.start ≤ low → low ≤ high → high ≤ node.stop →
    Outside reading node place low low → Outside reading node place high high →
    Shows reading.source history low high
      (between reading.source (patchesBelow reading node place) low high)
  blank : ∀ {low high}, node.start ≤ low → low < high → high ≤ node.stop →
    Outside reading node place low high → history.Untouched low high
  atStart : Outside reading node place node.start node.start
  atStop : Outside reading node place node.stop node.stop

theorem Prepared.ready (prepared : Prepared reading node place history)
    (ordered : reading.tokens.Ordered) (fit : Fit reading node place)
    (none : (rewrite reading node place).hosted node = []) : Ready reading node place history where
  own above forward under first last :=
    prepared.own ordered fit above forward under first last (by simp [none])
  blank above nonempty under outside := prepared.blank _ _ above nonempty under outside (by simp [none])
  atStart := outside_of_span ordered fit (.inl le_rfl)
  atStop := outside_of_span ordered fit (.inr le_rfl)

/-- The calls of a rule make its node show the text of the rule. -/
def Realized (reading : Reading) (node : Node) (place : Place) (history : History)
    (rule : Rewrite) : Prop :=
  Settled reading.source (history ++ rule.edits node) node.start node.stop
    (rule.text (between reading.source (patchesBelow reading node place)) node)

namespace Ready

/-- A range that one of several calls replaces, and the others do not touch. -/
theorem overwritten (ready : Ready reading node place history) (before : List Operation)
    (low high : Nat) (text : Text) (after : List Operation)
    (clears : Clears reading node place (.overwrite low high text)) (above : node.start ≤ low)
    (nonempty : low < high) (under : high ≤ node.stop)
    (earlier : ∀ operation ∈ before, operation.Apart low high)
    (later : ∀ operation ∈ after, operation.Apart low high) :
    Shows reading.source (history ++ (before ++ .overwrite low high text :: after)) low high
      text.encode := by
  have untouched := untouched_append (ready.blank above nonempty under (clears.replaced rfl)) earlier
  have shown : Shows reading.source (history ++ before ++ [.overwrite low high text]) low high
    text.encode := Shows.of_replaced untouched nonempty rfl
  simpa using shown.frame later

/-- A range that one of several calls removes, and the others do not touch. -/
theorem removed (ready : Ready reading node place history) (before : List Operation)
    (low high : Nat) (after : List Operation)
    (clears : Clears reading node place (.remove low high)) (above : node.start ≤ low)
    (nonempty : low < high) (under : high ≤ node.stop)
    (earlier : ∀ operation ∈ before, operation.Apart low high)
    (later : ∀ operation ∈ after, operation.Apart low high) :
    Shows reading.source (history ++ (before ++ .remove low high :: after)) low high [] := by
  have untouched := untouched_append (ready.blank above nonempty under (clears.replaced rfl)) earlier
  have shown : Shows reading.source (history ++ before ++ [.remove low high]) low high
    (Text.encode []) := Shows.of_replaced untouched nonempty rfl
  simpa using shown.frame later

/-- A range that several calls do not touch. -/
theorem kept (ready : Ready reading node place history) (edits : List Operation) (low high : Nat)
    (above : node.start ≤ low) (forward : low ≤ high) (under : high ≤ node.stop)
    (first : Outside reading node place low low) (last : Outside reading node place high high)
    (apart : ∀ operation ∈ edits, operation.Apart low high) :
    Shows reading.source (history ++ edits) low high
      (between reading.source (patchesBelow reading node place) low high) :=
  (ready.own above forward under first last).frame apart

variable (ready : Ready reading node place history)

include ready

theorem await {opening closing : Text} (fits : (Rewrite.await opening closing).Fits node)
    (clear : ∀ edit ∈ (Rewrite.await opening closing).edits node, Clears reading node place edit) :
    Realized reading node place history (.await opening closing) := by
  obtain ⟨-, -, last, -⟩ := fits
  dsimp only at last
  have clears := clear _ (List.mem_cons_self ..)
  have keyword := ready.overwritten [] node.start (node.start + 5) opening [] clears le_rfl (by omega) last
    (by simp) (by simp)
  have rest := ready.kept [.overwrite node.start (node.start + 5) opening] (node.start + 5) node.stop
    (by omega) last le_rfl
    (clears.cut (by simp [Operation.cuts])) ready.atStop (by simp [Operation.Apart])
  have whole := keyword.append rest
  rw [Realized, Rewrite.edits, Rewrite.text]
  split
  next empty =>
    subst empty
    simpa using whole.2.1 (by omega)
  next =>
    have closed := (whole.insertBefore (by omega) closing).2.1 (by omega)
    simpa using closed

omit ready in
/-- The calls that finish a member put its text in its place. -/
theorem use {use : Use} {edits : List Operation} {text : Bytes}
    (shows' : Shows reading.source (history ++ edits) node.start node.stop text)
    (nonempty : node.start < node.stop)
    (beside : ∀ binding, use = .called binding → binding.Beside node) :
    Settled reading.source (history ++ (edits ++ use.edits node)) node.start node.stop
      (use.wrap text) := by
  rw [← List.append_assoc]
  cases use with
  | value => simpa [Use.edits, Use.wrap] using shows'.2.1 nonempty
  | constructed =>
    have opened := shows'.insertAfter nonempty "(".toList
    have closed := (opened.insertBefore nonempty ")".toList).2.1 nonempty
    simpa [Use.edits, Use.wrap] using closed
  | called binding =>
    obtain ⟨-, apart, dropped⟩ := beside binding rfl
    refine (shows'.2.1 nonempty).frame ?_
    intro edit made
    simp only [Use.edits, Binding.edits, List.mem_append, List.mem_map, Option.mem_toList,
      List.mem_singleton] at made
    rcases made with ⟨span, given, rfl⟩ | rfl
    · exact (dropped span given).2.2
    · exact apart

theorem name {text : Text} {use : Use} (fits : (Rewrite.name text use).Fits node)
    (clear : ∀ edit ∈ (Rewrite.name text use).edits node, Clears reading node place edit) :
    Realized reading node place history (.name text use) := by
  obtain ⟨nonempty, beside⟩ := fits
  have clears := clear _ (List.mem_cons_self ..)
  have whole := ready.overwritten [] node.start node.stop text [] clears le_rfl nonempty le_rfl (by simp)
    (by simp)
  exact Ready.use whole nonempty beside

theorem key {property : Node} {use : Use} (fits : (Rewrite.key property use).Fits node)
    (clear : ∀ edit ∈ (Rewrite.key property use).edits node, Clears reading node place edit) :
    Realized reading node place history (.key property use) := by
  obtain ⟨-, above, nonempty, under, beside⟩ := fits
  have opens := clear _ (List.mem_cons_self ..)
  have closes := clear _ (List.mem_cons_of_mem _ (List.mem_cons_self ..))
  have opening := ready.overwritten [] node.start property.start "$uper(".toList
    [.overwrite property.stop node.stop ")".toList] opens le_rfl above (by omega) (by simp)
    (by simp [Operation.Apart]; omega)
  have inner := ready.kept [.overwrite node.start property.start "$uper(".toList,
    .overwrite property.stop node.stop ")".toList] property.start property.stop above.le nonempty.le
    under.le
    (opens.cut (by simp [Operation.cuts])) (closes.cut (by simp [Operation.cuts]))
    (by simp [Operation.Apart])
  have closing := ready.overwritten [.overwrite node.start property.start "$uper(".toList] property.stop
    node.stop ")".toList [] closes (by omega) under le_rfl (by simp [Operation.Apart]; omega) (by simp)
  exact Ready.use ((opening.append inner).append closing) (by omega) beside

theorem assignName {left right : Node} {head tail : Text}
    (fits : (Rewrite.assignName left right head tail).Fits node) (nested : node.Nested)
    (clear : ∀ edit ∈ (Rewrite.assignName left right head tail).edits node,
      Clears reading node place edit) :
    Realized reading node place history (.assignName left right head tail) := by
  obtain ⟨leftPart, rightPart, nonempty, ⟨-, wide, -, -⟩, rightNonempty⟩ := fits
  have leftInside := nested.2.1 _ leftPart
  have rightInside := nested.2.1 _ rightPart
  dsimp only at wide leftInside rightInside
  have clears := clear _ (List.mem_cons_self ..)
  have before := ready.kept [.overwrite left.start right.start head] node.start left.start le_rfl
    leftInside.1 (by omega)
    ready.atStart (clears.cut (by simp [Operation.cuts])) (by simp [Operation.Apart])
  have target := ready.overwritten [] left.start right.start head [] clears (by omega) (by omega)
    (by omega) (by simp) (by simp)
  have value := ready.kept [.overwrite left.start right.start head] right.start node.stop (by omega)
    (by omega) le_rfl
    (clears.cut (by simp [Operation.cuts])) ready.atStop (by simp [Operation.Apart])
  have closed := (((before.append target).append value).insertBefore (by omega) tail).2.1 (by omega)
  simpa [Realized, Rewrite.edits, Rewrite.text] using closed

theorem assignKey {left property right : Node}
    (fits : (Rewrite.assignKey left property right).Fits node) (nested : node.Nested)
    (clear : ∀ edit ∈ (Rewrite.assignKey left property right).edits node,
      Clears reading node place edit) :
    Realized reading node place history (.assignKey left property right) := by
  obtain ⟨child, -, rightPart, -, above, nonempty, under, ⟨-, wide, -, -⟩, rightNonempty⟩ := fits
  have leftInside := nested.2.1 _ (Node.mem_parts_of_child child)
  have rightInside := nested.2.1 _ rightPart
  dsimp only at wide leftInside rightInside
  have opens := clear _ (List.mem_cons_self ..)
  have closes := clear _ (List.mem_cons_of_mem _ (List.mem_cons_self ..))
  let head : List Operation := [.overwrite left.start property.start "$uperEq(".toList]
  let edits : List Operation := head ++ [.overwrite property.stop right.start ",".toList]
  have before := ready.kept edits node.start left.start le_rfl leftInside.1 (by omega) ready.atStart
    (opens.cut (by simp [Operation.cuts])) (by simp [edits, head, Operation.Apart]; omega)
  have target := ready.overwritten [] left.start property.start "$uperEq(".toList
    [.overwrite property.stop right.start ",".toList] opens (by omega) above (by omega) (by simp)
    (by simp [Operation.Apart]; omega)
  have inner := ready.kept edits property.start property.stop (by omega) nonempty.le (by omega)
    (opens.cut (by simp [Operation.cuts])) (closes.cut (by simp [Operation.cuts]))
    (by simp [edits, head, Operation.Apart])
  have comma := ready.overwritten head property.stop right.start ",".toList [] closes (by omega) (by omega)
    (by omega) (by simp [head, Operation.Apart]; omega) (by simp)
  have value := ready.kept edits right.start node.stop (by omega) (by omega) le_rfl (closes.cut (by simp [Operation.cuts]))
    ready.atStop (by simp [edits, head, Operation.Apart]; omega)
  have whole := (((before.append target).append inner).append comma).append value
  have closed := (whole.insertBefore (by omega) ")".toList).2.1 (by omega)
  simpa [Realized, Rewrite.edits, Rewrite.text, edits, head] using closed

/-- The calls of a function in front of its body. -/
def signatureEdits (removed : Span) (star : Option (Span × Text)) : List Operation :=
  .remove removed.start removed.stop ::
    star.toList.map fun replaced => .overwrite replaced.1.start replaced.1.stop replaced.2

omit ready in
theorem signatureEdits_apart {removed : Span} {star : Option (Span × Text)} {body : Node}
    (fits : FunctionFits node removed star body) (above : body.start ≤ low) :
    ∀ operation ∈ signatureEdits removed star, operation.Apart low high := by
  have beforeBody := fits.beforeBody
  intro edit made
  simp only [signatureEdits, List.mem_cons, List.mem_map, Option.mem_toList] at made
  rcases made with rfl | ⟨replaced, given, rfl⟩
  · simp only [Operation.Apart]
    omega
  · obtain ⟨-, -, starBefore⟩ := fits.star replaced given
    simp only [Operation.Apart]
    omega

/-- The signature of a function, up to the brace that opens the body. -/
theorem signature {removed : Span} {star : Option (Span × Text)} {body : Node}
    (fits : FunctionFits node removed star body) (under : body.start + 1 ≤ node.stop)
    (clear : ∀ edit ∈ signatureEdits removed star, Clears reading node place edit)
    (atOpening : Outside reading node place (body.start + 1) (body.start + 1)) :
    Shows reading.source (history ++ signatureEdits removed star) node.start (body.start + 1)
      (between reading.source (patchesBelow reading node place) node.start removed.start ++
        aroundStar (between reading.source (patchesBelow reading node place)) removed.stop
          (body.start + 1) star) := by
  have beforeBody := fits.beforeBody
  obtain ⟨first, nonempty, last, -⟩ := fits.owns
  have removes := clear _ (List.mem_cons_self ..)
  cases star with
  | none =>
    have before := ready.kept [.remove removed.start removed.stop] node.start removed.start le_rfl
      first (by omega) ready.atStart (removes.cut (by simp [Operation.cuts]))
      (by simp [Operation.Apart])
    have gone := ready.removed [] removed.start removed.stop [] removes first nonempty last (by simp)
      (by simp)
    have after := ready.kept [.remove removed.start removed.stop] removed.stop (body.start + 1)
      (by omega) (by omega) under (removes.cut (by simp [Operation.cuts])) atOpening
      (by simp [Operation.Apart])
    simpa [aroundStar, signatureEdits] using (before.append gone).append after
  | some replaced =>
    obtain ⟨behind, ⟨-, starNonempty, -, -⟩, starBefore⟩ := fits.star replaced rfl
    have stars : Clears reading node place
        (.overwrite replaced.1.start replaced.1.stop replaced.2) :=
      clear _ (by simp [signatureEdits])
    let edits : List Operation := [.remove removed.start removed.stop,
      .overwrite replaced.1.start replaced.1.stop replaced.2]
    have before := ready.kept edits node.start removed.start le_rfl first (by omega) ready.atStart
      (removes.cut (by simp [Operation.cuts])) (by simp [edits, Operation.Apart]; omega)
    have gone := ready.removed [] removed.start removed.stop
      [.overwrite replaced.1.start replaced.1.stop replaced.2] removes first nonempty last (by simp)
      (by simp [Operation.Apart]; omega)
    have middle := ready.kept edits removed.stop replaced.1.start (by omega) behind (by omega)
      (removes.cut (by simp [Operation.cuts])) (stars.cut (by simp [Operation.cuts]))
      (by simp [edits, Operation.Apart])
    have asterisk := ready.overwritten [.remove removed.start removed.stop] replaced.1.start
      replaced.1.stop replaced.2 [] stars (by omega) starNonempty (by omega)
      (by simp [Operation.Apart]; omega) (by simp)
    have after := ready.kept edits replaced.1.stop (body.start + 1) (by omega) (by omega) under
      (stars.cut (by simp [Operation.cuts])) atOpening (by simp [edits, Operation.Apart]; omega)
    simpa [aroundStar, signatureEdits, edits] using
      (((before.append gone).append middle).append asterisk).append after

theorem function {removed : Span} {star : Option (Span × Text)} {body : Node} {opening closing : Text}
    (fits : FunctionFits node removed star body) (nested : node.Nested)
    (clear : ∀ edit ∈ (Rewrite.function removed star body opening closing).edits node,
      Clears reading node place edit) :
    Realized reading node place history (.function removed star body opening closing) := by
  have bodyInside := nested.2.1 _ (Node.mem_parts_of_child fits.bodyPart)
  have wide := fits.block.wide
  have beforeBody := fits.beforeBody
  obtain ⟨first, nonempty, last, -⟩ := fits.owns
  dsimp only at bodyInside
  have opens : Clears reading node place (.insertBefore (body.start + 1) opening) :=
    clear _ (by simp [Rewrite.edits])
  have closes : Clears reading node place (.insertBefore (body.stop - 1) closing) :=
    clear _ (by simp [Rewrite.edits])
  have atOpening : Outside reading node place (body.start + 1) (body.start + 1) :=
    opens.cut (by simp [Operation.cuts])
  have atClosing : Outside reading node place (body.stop - 1) (body.stop - 1) :=
    closes.cut (by simp [Operation.cuts])
  let edits := signatureEdits removed star
  have signature := ready.signature fits (by omega)
    (fun edit made => clear edit (List.mem_append_left _ made)) atOpening
  have opened := signature.insertBefore (by omega) opening
  have inner := (ready.kept edits (body.start + 1) (body.stop - 1) (by omega) (by omega) (by omega)
    atOpening atClosing (signatureEdits_apart fits (by omega))).frame
    (show ∀ operation ∈ [Operation.insertBefore (body.start + 1) opening],
      operation.Apart (body.start + 1) (body.stop - 1) by simp [Operation.Apart])
  have closed := (opened.append inner).insertBefore (by omega) closing
  have rest := (ready.kept edits (body.stop - 1) node.stop (by omega) (by omega) le_rfl atClosing
    ready.atStop (signatureEdits_apart fits (by omega))).frame
    (show ∀ operation ∈ [Operation.insertBefore (body.start + 1) opening,
        .insertBefore (body.stop - 1) closing],
      operation.Apart (body.stop - 1) node.stop by simp [Operation.Apart]; omega)
  have whole := (closed.append (by simpa using rest)).2.1 (by omega)
  simpa [Realized, Rewrite.edits, Rewrite.text, edits, signatureEdits] using whole

theorem arrowBlock {removed : Span} {body : Node} {opening closing : Text}
    (fits : ArrowFits node removed body) (block : BlockFits body) (nested : node.Nested)
    (clear : ∀ edit ∈ (Rewrite.arrowBlock removed body opening closing).edits node,
      Clears reading node place edit) :
    Realized reading node place history (.arrowBlock removed body opening closing) := by
  have bodyInside := nested.2.1 _ (Node.mem_parts_of_child fits.bodyPart)
  have wide := block.wide
  have beforeBody := fits.beforeBody
  obtain ⟨first, nonempty, last, -⟩ := fits.owns
  dsimp only at bodyInside
  have removes := clear _ (List.mem_cons_self ..)
  have opens : Clears reading node place (.overwrite body.start (body.start + 1) opening) :=
    clear _ (by simp [Rewrite.edits])
  have closes : Clears reading node place (.overwrite (body.stop - 1) body.stop closing) :=
    clear _ (by simp [Rewrite.edits])
  let edits : List Operation := [.remove removed.start removed.stop,
    .overwrite body.start (body.start + 1) opening, .overwrite (body.stop - 1) body.stop closing]
  have before := ready.kept edits node.start removed.start le_rfl first (by omega) ready.atStart
    (removes.cut (by simp [Operation.cuts])) (by simp [edits, Operation.Apart]; omega)
  have gone := ready.removed [] removed.start removed.stop [.overwrite body.start (body.start + 1) opening,
    .overwrite (body.stop - 1) body.stop closing] removes first nonempty last (by simp)
    (by simp [Operation.Apart]; omega)
  have signature := ready.kept edits removed.stop body.start (by omega) beforeBody (by omega)
    (removes.cut (by simp [Operation.cuts])) (opens.cut (by simp [Operation.cuts]))
    (by simp [edits, Operation.Apart]; omega)
  have opened := ready.overwritten [.remove removed.start removed.stop] body.start (body.start + 1)
    opening [.overwrite (body.stop - 1) body.stop closing] opens (by omega) (by omega) (by omega)
    (by simp [Operation.Apart]; omega) (by simp [Operation.Apart]; omega)
  have inner := ready.kept edits (body.start + 1) (body.stop - 1) (by omega) (by omega) (by omega)
    (opens.cut (by simp [Operation.cuts])) (closes.cut (by simp [Operation.cuts]))
    (by simp [edits, Operation.Apart]; omega)
  have closed := ready.overwritten [.remove removed.start removed.stop,
    .overwrite body.start (body.start + 1) opening] (body.stop - 1) body.stop closing [] closes
    (by omega) (by omega) (by omega) (by simp [Operation.Apart]; omega) (by simp)
  have rest := ready.kept edits body.stop node.stop (by omega) (by omega) le_rfl
    (closes.cut (by simp [Operation.cuts])) ready.atStop (by simp [edits, Operation.Apart]; omega)
  have whole := ((((((before.append gone).append signature).append opened).append inner).append
    closed).append rest).2.1 (by omega)
  simpa [Realized, Rewrite.edits, Rewrite.text, edits] using whole

theorem arrowValue {removed : Span} {arrowStop : Nat} {body : Node} {opening closing : Text}
    (fits : (Rewrite.arrowValue removed arrowStop body opening closing).Fits node)
    (nested : node.Nested)
    (clear : ∀ edit ∈ (Rewrite.arrowValue removed arrowStop body opening closing).edits node,
      Clears reading node place edit) :
    Realized reading node place history (.arrowValue removed arrowStop body opening closing) := by
  obtain ⟨⟨child, ⟨first, nonempty, last, -⟩, beforeBody⟩, bodyNonempty, behind, arrow, -⟩ := fits
  have bodyInside := nested.2.1 _ (Node.mem_parts_of_child child)
  dsimp only at bodyInside
  have removes := clear _ (List.mem_cons_self ..)
  have atArrow : Outside reading node place arrowStop arrowStop :=
    (clear (.insertBefore arrowStop opening) (by simp [Rewrite.edits])).cut (by simp [Operation.cuts])
  have atBody : Outside reading node place body.start body.start :=
    (clear (.insertAfter body.start "return ".toList) (by simp [Rewrite.edits])).cut
      (by simp [Operation.cuts])
  have atEnd : Outside reading node place body.stop body.stop :=
    (clear (.insertBefore body.stop closing) (by simp [Rewrite.edits])).cut (by simp [Operation.cuts])
  let edits : List Operation := [.remove removed.start removed.stop]
  have before := ready.kept edits node.start removed.start le_rfl first (by omega) ready.atStart
    (removes.cut (by simp [Operation.cuts])) (by simp [edits, Operation.Apart])
  have gone := ready.removed [] removed.start removed.stop [] removes first nonempty last (by simp)
    (by simp)
  have signature := ready.kept edits removed.stop arrowStop (by omega) (by omega) (by omega)
    (removes.cut (by simp [Operation.cuts])) atArrow (by simp [edits, Operation.Apart])
  have opened := ((before.append gone).append signature).insertBefore (by omega) opening
  have gap := ready.kept (edits ++ [.insertBefore arrowStop opening]) arrowStop body.start (by omega)
    arrow (by omega) atArrow atBody (by simp [edits, Operation.Apart]; omega)
  have value := ready.kept (edits ++ [.insertBefore arrowStop opening]) body.start body.stop (by omega)
    bodyNonempty.le (by omega) atBody atEnd (by simp [edits, Operation.Apart]; omega)
  have rest := ready.kept (edits ++ [.insertBefore arrowStop opening,
    .insertAfter body.start "return ".toList, .insertBefore body.stop closing]) body.stop node.stop
    (by omega) (by omega) le_rfl atEnd ready.atStop (by simp [edits, Operation.Apart]; omega)
  have returned := (value.insertAfter bodyNonempty "return ".toList).insertBefore bodyNonempty closing
  have head := (opened.append (by simpa using gap)).frame
    (show ∀ operation ∈ [Operation.insertAfter body.start "return ".toList,
        .insertBefore body.stop closing],
      operation.Apart node.start body.start by simp [Operation.Apart]; omega)
  have whole := ((head.append (by simpa using returned)).append (by simpa using rest)).2.1 (by omega)
  simpa [Realized, Rewrite.edits, Rewrite.text, edits] using whole

/-- The calls of a loop that replace a range, with the one at its start. -/
def loopFrame (number : Nat) (marker : Bool) (wrapped : Nat) (particles : LoopParticles)
    (left right : Node) : List Operation :=
  [.insertAfter wrapped "try\x7b".toList, .remove particles.keyword.start particles.opening.start,
    .overwrite left.stop right.start (loopHead number),
    .overwrite right.stop particles.closing.stop (loopTest number marker)]

/-- The calls that make the target of a loop a statement. -/
def targetEdits (number : Nat) (left : Node) : List Operation :=
  if left.is .variableDeclaration then [.insertBefore left.stop (numbered number "=$s#.value;")]
  else [.insertAfter left.start "(".toList, .insertBefore left.stop (numbered number "=$s#.value);")]

/-- The calls of a loop that change its body and its target. -/
def loopParts (number : Nat) (left body : Node) : List Operation :=
  (if body.is .blockStatement then []
    else [.insertBefore body.start "\x7b".toList, .insertBefore body.stop "\x7d".toList])
    ++ targetEdits number left

omit ready in
theorem targetEdits_keep (number : Nat) (left : Node) :
    ∀ operation ∈ targetEdits number left, operation.replaced? = none ∧ operation.moved? = none := by
  unfold targetEdits
  split <;> simp [Operation.replaced?, Operation.moved?]

omit ready in
theorem targetEdits_apart {number : Nat} {left : Node} (beside : high ≤ left.start ∨ left.stop ≤ low)
    (nonempty : left.start < left.stop) :
    ∀ operation ∈ targetEdits number left, operation.Apart low high := by
  unfold targetEdits
  split
  · simp only [List.forall_mem_cons, Operation.Apart]
    exact ⟨by omega, by simp⟩
  · simp only [List.forall_mem_cons, Operation.Apart]
    exact ⟨by omega, by omega, by simp⟩

omit ready in
/-- Ranges of a loop are replaced before anything else, as far as the result is concerned. -/
theorem loop_of_frame {number : Nat} {marker : Bool} {wrapped destination : Nat}
    {particles : LoopParticles} {left right body : Node} {text : Bytes}
    (there : destination = if body.is .blockStatement then body.start + 1 else body.start)
    (settled : Settled reading.source
      (history ++ (loopFrame number marker wrapped particles left right ++ (loopParts number left body
        ++ [.moveRange left.start left.stop destination,
          .insertBefore node.stop (loopCleanup number marker)]))) low high text) :
    Settled reading.source
      (history ++ loopEdits number marker wrapped particles node left right body) low high text := by
  have delayed := @Settled.delay reading.source
    (history ++ [.insertAfter wrapped "try\x7b".toList,
      .remove particles.keyword.start particles.opening.start]) low high text
    [.overwrite left.stop right.start (loopHead number),
      .overwrite right.stop particles.closing.stop (loopTest number marker)]
    (loopParts number left body ++ [.moveRange left.start left.stop destination])
    [.insertBefore node.stop (loopCleanup number marker)]
    (by simpa [loopFrame] using settled) (by simp [Operation.replaced?]) (by
      intro operation member
      simp only [loopParts, List.mem_append, List.mem_singleton] at member
      rcases member with (made | made) | rfl
      · split at made
        · simp at made
        · simp only [List.mem_cons, List.not_mem_nil, or_false] at made
          rcases made with rfl | rfl <;> rfl
      · exact (targetEdits_keep number left operation made).1
      · rfl)
  subst there
  simpa [loopEdits, loopParts, targetEdits] using delayed

omit ready in
/-- The calls for body and target do not touch the ranges beside them. -/
theorem loopParts_apart {number : Nat} {left body : Node}
    (target : high ≤ left.start ∨ left.stop ≤ low)
    (block : body.is .blockStatement = false →
      (body.start ≤ low ∨ high < body.start) ∧ (body.stop ≤ low ∨ high < body.stop))
    (nonempty : left.start < left.stop) :
    ∀ operation ∈ loopParts number left body, operation.Apart low high := by
  intro operation made
  rcases List.mem_append.mp made with made | made
  · split at made
    · simp at made
    next plain =>
      obtain ⟨first, last⟩ := block (by simpa using plain)
      simp only [List.mem_cons, List.not_mem_nil, or_false] at made
      rcases made with rfl | rfl
      · exact first
      · exact last
  · exact targetEdits_apart target nonempty operation made

omit ready in
/-- The target of a loop becomes a statement. -/
theorem loop_target {edits : List Operation} {number : Nat} {left body : Node} {text : Bytes}
    (shows' : Shows reading.source (history ++ edits) left.start left.stop text)
    (nonempty : left.start < left.stop) (before : left.stop < body.start)
    (full : body.start < body.stop) :
    Shows reading.source (history ++ (edits ++ loopParts number left body)) left.start left.stop
      (loopTarget number left text) := by
  have framed := shows'.frame (show ∀ operation ∈ (if body.is .blockStatement then []
      else [Operation.insertBefore body.start "\x7b".toList,
        .insertBefore body.stop "\x7d".toList]), operation.Apart left.start left.stop by
    intro operation made
    split at made
    · simp at made
    · simp only [List.mem_cons, List.not_mem_nil, or_false] at made
      rcases made with rfl | rfl <;> simp only [Operation.Apart] <;> omega)
  rw [loopParts, targetEdits, loopTarget]
  generalize (if body.is .blockStatement then []
    else [Operation.insertBefore body.start "\x7b".toList,
      .insertBefore body.stop "\x7d".toList]) = around at framed ⊢
  by_cases declares : left.is .variableDeclaration
  · have done := framed.insertBefore nonempty (numbered number "=$s#.value;")
    simpa [declares] using done
  · have done := (framed.insertAfter nonempty "(".toList).insertBefore nonempty
      (numbered number "=$s#.value);")
    simpa [declares] using done

omit ready in
theorem moves_loopParts (number : Nat) (left body : Node) :
    History.moves (loopParts number left body) = [] := by
  apply List.filterMap_eq_nil_iff.mpr
  intro operation made
  rcases List.mem_append.mp made with made | made
  · split at made
    · simp at made
    · simp only [List.mem_cons, List.not_mem_nil, or_false] at made
      rcases made with rfl | rfl <;> rfl
  · exact (targetEdits_keep number left operation made).2

omit ready in
/-- A body that is no block gets braces. -/
theorem loop_statement {edits : List Operation} {number : Nat} {left body : Node}
    {passed inner : Bytes} (before : Shows reading.source (history ++ edits) low body.start passed)
    (value : Shows reading.source (history ++ edits) body.start body.stop inner)
    (plain : ¬ body.is .blockStatement) (behind : left.stop ≤ low)
    (nonempty : left.start < left.stop) (far : low < body.start) (full : body.start < body.stop) :
    Shows reading.source (history ++ (edits ++ loopParts number left body)) low body.start
        (passed ++ Text.encode "\x7b".toList) ∧
      Shows reading.source (history ++ (edits ++ loopParts number left body)) body.start body.stop
        (inner ++ Text.encode "\x7d".toList) := by
  have parts_eq : loopParts number left body = .insertBefore body.start "\x7b".toList
      :: .insertBefore body.stop "\x7d".toList :: targetEdits number left := by
    simp [loopParts, plain]
  rw [parts_eq]
  constructor
  · have done := (before.insertBefore far "\x7b".toList).frame
      (show ∀ operation ∈ Operation.insertBefore body.stop "\x7d".toList :: targetEdits number left,
        operation.Apart low body.start from List.forall_mem_cons.mpr
          ⟨.inr full, targetEdits_apart (.inr behind) nonempty⟩)
    simpa using done
  · have opened := value.frame (show ∀ operation ∈ [Operation.insertBefore body.start "\x7b".toList],
      operation.Apart body.start body.stop by simp [Operation.Apart])
    have done := (opened.insertBefore full "\x7d".toList).frame
      (@targetEdits_apart body.start body.stop number left (.inr (by omega)) nonempty)
    simpa using done

omit ready in
/-- The body of a loop, cut where the target goes. -/
theorem loop_body {edits : List Operation} {number : Nat} {left body : Node} {passed : Bytes}
    {own : Nat → Nat → Bytes} (before : Shows reading.source (history ++ edits) low body.start passed)
    (inner : Shows reading.source (history ++ edits) body.start body.stop (own body.start body.stop))
    (cut : body.is .blockStatement = true → body.start + 2 ≤ body.stop ∧
      Shows reading.source (history ++ edits) body.start (body.start + 1)
        (own body.start (body.start + 1)) ∧
      Shows reading.source (history ++ edits) (body.start + 1) body.stop
        (own (body.start + 1) body.stop))
    (behind : left.stop ≤ low) (nonempty : left.start < left.stop) (far : low < body.start)
    (full : body.start < body.stop) :
    let destination := if body.is .blockStatement then body.start + 1 else body.start
    (body.start ≤ destination ∧ destination < body.stop) ∧ ∃ front back,
      Shows reading.source (history ++ (edits ++ loopParts number left body)) low destination front ∧
      Shows reading.source (history ++ (edits ++ loopParts number left body)) destination body.stop
        back ∧
      ∀ target, passed ++ loopBody own body target = front ++ target ++ back := by
  by_cases isBlock : body.is .blockStatement
  · obtain ⟨wide, brace, rest⟩ := cut isBlock
    have front := Shows.frame_append (before.append brace)
      (@loopParts_apart _ _ number left body (.inr behind) (by simp [isBlock]) nonempty)
    have back := Shows.frame_append rest
      (@loopParts_apart _ _ number left body (.inr (by omega)) (by simp [isBlock]) nonempty)
    rw [if_pos isBlock]
    exact ⟨by omega, _, _, front, back, by simp [loopBody, isBlock]⟩
  · obtain ⟨front, back⟩ := @loop_statement reading history low edits number left body _ _ before inner
      isBlock behind nonempty far full
    rw [if_neg isBlock]
    exact ⟨by omega, _, _, front, back, by simp [loopBody, isBlock]⟩

/-- A loop begins with its `try`, unless this goes in front of a label. -/
theorem loop_start {labelled : Option Nat} {stop : Nat} {rest : List Operation}
    (outside : ∀ offset ∈ labelled, offset < node.start) (nonempty : node.start < stop)
    (under : stop ≤ node.stop) (last : Outside reading node place stop stop)
    (apart : ∀ operation ∈ rest, operation.Apart node.start stop) :
    Shows reading.source
      (history ++ (.insertAfter (labelled.getD node.start) "try\x7b".toList :: rest)) node.start stop
      ((if labelled.isSome then [] else Text.encode "try\x7b".toList)
        ++ between reading.source (patchesBelow reading node place) node.start stop) := by
  have own := ready.own le_rfl nonempty.le under ready.atStart last
  cases labelled with
  | none =>
    have opened := (own.insertAfter nonempty "try\x7b".toList).frame apart
    simpa using opened
  | some offset =>
    have before := outside offset rfl
    have passed := (own.frame (show ∀ operation ∈ [Operation.insertAfter offset "try\x7b".toList],
      operation.Apart node.start stop by simp [Operation.Apart, before])).frame apart
    simpa using passed

theorem loop {number : Nat} {marker : Bool} {labelled : Option Nat} {particles : LoopParticles}
    {left right body : Node} (fits : LoopFits node labelled particles left right body)
    (nested : node.Nested)
    (clear : ∀ edit ∈ (Rewrite.loop number marker labelled particles left right body).edits node,
      Clears reading node place edit)
    (atBody : Outside reading node place body.start body.start)
    (atEnd : Outside reading node place body.stop body.stop)
    (still : ∀ move ∈ history.moves, move.Apart left.start left.stop) :
    Realized reading node place history
      (.loop number marker labelled particles left right body) := by
  have bodyInside := nested.2.1 _ (Node.mem_parts_of_child fits.bodyPart)
  have wide := fun isBlock => (fits.block isBlock).wide
  have wrapped_le := fits.wrapped_le
  obtain ⟨-, -, -, outside, begun, opened, -, opening, beforeLeft, leftNonempty, ⟨-, between', -, -⟩,
    rightNonempty, ⟨-, closing, -, -⟩, beforeBody, bodyNonempty, -⟩ := fits
  dsimp only at bodyInside between' closing
  let wrapped := labelled.getD node.start
  let destination := if body.is .blockStatement then body.start + 1 else body.start
  have removes : Clears reading node place
      (.remove particles.keyword.start particles.opening.start) :=
    clear _ (by simp [Rewrite.edits, loopEdits])
  have heads : Clears reading node place (.overwrite left.stop right.start (loopHead number)) :=
    clear _ (by simp [Rewrite.edits, loopEdits])
  have tests : Clears reading node place
      (.overwrite right.stop particles.closing.stop (loopTest number marker)) :=
    clear _ (by simp [Rewrite.edits, loopEdits])
  have moves : Clears reading node place (.moveRange left.start left.stop destination) :=
    clear _ (by simp [Rewrite.edits, loopEdits, destination])
  let frame := loopFrame number marker wrapped particles left right
  let parts := loopParts number left body
  have untouched (low high : Nat) (beside : (high ≤ particles.keyword.start ∧ wrapped < low) ∨
      (particles.opening.start ≤ low ∧ high ≤ left.stop) ∨
      (right.start ≤ low ∧ high ≤ right.stop) ∨ particles.closing.stop ≤ low) :
      ∀ operation ∈ frame, operation.Apart low high := by
    simp only [frame, loopFrame, List.forall_mem_cons, Operation.Apart]
    refine ⟨?_, ?_, ?_, ?_, by simp⟩ <;> omega
  have start : Shows reading.source (history ++ frame) node.start particles.keyword.start
      ((if labelled.isSome then [] else Text.encode "try\x7b".toList)
        ++ between reading.source (patchesBelow reading node place) node.start
          particles.keyword.start) := by
    refine ready.loop_start outside (by omega) (by omega) (removes.cut (by simp [Operation.cuts])) ?_
    simp only [List.forall_mem_cons, Operation.Apart]
    refine ⟨?_, ?_, ?_, by simp⟩ <;> omega
  have gone := ready.removed [.insertAfter wrapped "try\x7b".toList] particles.keyword.start
    particles.opening.start [.overwrite left.stop right.start (loopHead number),
      .overwrite right.stop particles.closing.stop (loopTest number marker)] removes (by omega) opened
    (by omega) (by simp [Operation.Apart]; omega) (by simp [Operation.Apart]; omega)
  have signature := ready.kept frame particles.opening.start left.start (by omega) (by omega) (by omega)
    (removes.cut (by simp [Operation.cuts])) (moves.cut (by simp [Operation.cuts]))
    (untouched _ _ (by omega))
  have targetOwn := ready.kept frame left.start left.stop (by omega) leftNonempty.le (by omega)
    (moves.cut (by simp [Operation.cuts])) (moves.cut (by simp [Operation.cuts]))
    (untouched _ _ (by omega))
  have head := ready.overwritten [.insertAfter wrapped "try\x7b".toList,
    .remove particles.keyword.start particles.opening.start] left.stop right.start (loopHead number)
    [.overwrite right.stop particles.closing.stop (loopTest number marker)] heads (by omega) between'
    (by omega) (by simp [Operation.Apart]; omega) (by simp [Operation.Apart]; omega)
  have iterable := ready.kept frame right.start right.stop (by omega) rightNonempty.le (by omega)
    (heads.cut (by simp [Operation.cuts])) (tests.cut (by simp [Operation.cuts]))
    (untouched _ _ (by omega))
  have test := ready.overwritten [.insertAfter wrapped "try\x7b".toList,
    .remove particles.keyword.start particles.opening.start,
    .overwrite left.stop right.start (loopHead number)] right.stop particles.closing.stop
    (loopTest number marker) [] tests (by omega) closing (by omega)
    (by simp [Operation.Apart]; omega) (by simp)
  have gap := ready.kept frame particles.closing.stop body.start (by omega) beforeBody (by omega)
    (tests.cut (by simp [Operation.cuts])) atBody (untouched _ _ (by omega))
  have tail := ready.kept frame body.stop node.stop (by omega) (by omega) le_rfl atEnd ready.atStop
    (untouched _ _ (by omega))
  -- the node in four regions: up to the target, the target, up to the destination, and the rest
  have first := Shows.frame_append ((start.append gone).append signature)
    (@loopParts_apart _ _ number left body (.inl le_rfl) (fun _ => by omega) leftNonempty)
  have second := @loop_target reading history frame number left body _ targetOwn leftNonempty
    (by omega) bodyNonempty
  have inner := ready.kept frame body.start body.stop (by omega) bodyNonempty.le (by omega) atBody atEnd
    (untouched _ _ (by omega))
  obtain ⟨⟨atDestination, beforeEnd⟩, front, back, third, fourth, joined⟩ :=
    @loop_body reading history left.stop frame number left body _ _
      (((head.append iterable).append test).append gap) inner (fun isBlock => by
        have more := wide isBlock
        have atBrace : Outside reading node place (body.start + 1) (body.start + 1) :=
          moves.cut (by simp [Operation.cuts, destination, isBlock])
        exact ⟨more, ready.kept frame _ _ (by omega) (by omega) (by omega) atBody atBrace
            (untouched _ _ (by omega)),
          ready.kept frame _ _ (by omega) (by omega) (by omega) atBrace atEnd
            (untouched _ _ (by omega))⟩)
      le_rfl leftNonempty (by omega) bodyNonempty
  have last := Shows.frame_append tail
    (@loopParts_apart _ _ number left body (.inr (by omega)) (fun _ => by omega) leftNonempty)
  have unmoved : ∀ move ∈ History.moves (history ++ (frame ++ parts)),
      move.Apart left.start left.stop := by
    intro move made
    have none : History.moves frame = [] := rfl
    rw [History.moves_append, History.moves_append, none, moves_loopParts, List.append_nil,
      List.append_nil] at made
    exact still move made
  have moved := Settled.move (first.2.1 (by omega)) (second.2.1 leftNonempty)
    (third.2.1 (by omega)) ((fourth.append last).2.1 (by omega)) unmoved (by omega) leftNonempty
    (by omega) (by omega)
  have done := moved.insertBefore (by omega) (loopCleanup number marker)
  refine @loop_of_frame reading node history _ _ number marker wrapped destination particles left
    right body _ rfl ?_
  have text := joined (loopTarget number left
    (between reading.source (patchesBelow reading node place) left.start left.stop))
  simp only [List.append_assoc] at text
  simpa [Rewrite.text, frame, parts, text] using done

end Ready

end Agreement

end Unawait.Lowering
