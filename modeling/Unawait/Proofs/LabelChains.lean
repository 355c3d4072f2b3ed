import Mathlib
import Unawait.Proofs.EmittedCopies
import Unawait.Proofs.SyntaxDirected
import Unawait.Proofs.RunCalls
import Unawait.Proofs.LoopMoves

/-!
# Labels around a loop

A lowered loop stands in a `try` statement. A label of the loop has to stay on it, since `continue`
can name labels of loops only, so the `try` goes in front of the label. The rule for a loop looks at
the parent of the loop. Where more labels are around the loop, the `try` goes between them: only the
innermost label stays on the loop, and the others become labels of the `try` statement.

That the result has this text follows from what all other calls of a walk leave alone, which is the
range from the outermost label to the keyword of the loop. The calls in the loop are made behind the
keyword, the rules for labels make none, and calls beside the labels stay there. The rules for the
nodes around reach into blocks and into members, but not into labels.
-/

namespace Unawait.Edit

/-! ### Ranges that all calls spare -/

namespace Operation

variable {operation : Operation} {range : Span} {offset : Nat}

/-- A call puts nothing strictly inside a range that it spares. -/
theorem Spares.silent (spares : operation.Spares range) (above : range.start < offset)
    (below : offset < range.stop) : operation.after offset = [] ∧ operation.before offset = [] := by
  cases operation with
  | insertAfter place text =>
    have apart := spares.1 place (by simp [cuts])
    exact ⟨if_neg (by omega), rfl⟩
  | insertBefore place text =>
    have apart := spares.1 place (by simp [cuts])
    exact ⟨rfl, if_neg (by omega)⟩
  | _ => exact ⟨rfl, rfl⟩

theorem Spares.mono (spares : operation.Spares range) {inner : Span} (first : range.start ≤ inner.start)
    (last : inner.stop ≤ range.stop) : operation.Spares inner := by
  refine ⟨fun offset cut => ?_, fun own replaced => ?_⟩
  · have := spares.1 offset cut
    omega
  · have := spares.2 own replaced
    omega

theorem spares_of_behind (behind : ∀ offset ∈ operation.cuts, range.stop ≤ offset) :
    operation.Spares range := by
  refine ⟨fun offset cut => .inr (behind offset cut), fun own replaced => .inr ?_⟩
  cases operation with
  | overwrite start stop text =>
    obtain rfl : (⟨start, stop⟩, text) = own := Option.some.inj replaced
    exact behind start (by simp [cuts])
  | remove start stop =>
    obtain rfl : (⟨start, stop⟩, []) = own := Option.some.inj replaced
    exact behind start (by simp [cuts])
  | _ => simp [replaced?] at replaced

/-- A call within a range has nothing to do with a range beside it. -/
theorem Within.beside {own : Span} (within : operation.Within own.start own.stop)
    (disjoint : own.Disjoint range) (nonempty : range.start < range.stop) :
    operation.Spares range ∧ operation.after range.start = [] := by
  have apart : min own.stop range.stop ≤ max own.start range.start := disjoint
  by_cases full : own.start < own.stop
  · refine ⟨within.spares (by omega), ?_⟩
    cases operation with
    | insertAfter place text =>
      obtain ⟨first, last⟩ := within
      exact if_neg (by omega)
    | _ => rfl
  · -- within an empty range there is nothing but marks
    cases operation with
    | mark offset => exact ⟨⟨nofun, nofun⟩, rfl⟩
    | append text => exact within.elim
    | _ =>
      simp only [Within] at within
      omega

end Operation

namespace History

variable {source : Text} {history : History} {low high : Nat}

theorem places_infix_rendering : (List.range source.bytes).flatMap (history.place source) <:+:
    history.rendering source :=
  ⟨(history.textBefore 0).encode, history.arriving source source.bytes
    ++ (history.textAfter source.bytes).encode ++ history.appended.encode, by
    simp [rendering, List.append_assoc]⟩

/-- A range that is moved arrives as a whole. -/
theorem moved_infix_rendering {move : Move} (made : move ∈ history.moves)
    (bound : move.destination ≤ source.bytes) :
    history.cells source move.start move.stop <:+: history.rendering source := by
  have arrives : history.cells source move.start move.stop <:+:
      history.arriving source move.destination := by
    rw [arriving, List.flatMap_def]
    exact List.infix_of_mem_flatten (List.mem_map_of_mem (List.mem_filter.mpr ⟨made, by simp⟩))
  refine arrives.trans ?_
  rcases bound.lt_or_eq with before | atEnd
  · have here : history.place source move.destination <:+:
        (List.range source.bytes).flatMap (history.place source) := by
      rw [List.flatMap_def]
      exact List.infix_of_mem_flatten (List.mem_map_of_mem (List.mem_range.mpr before))
    exact ((List.prefix_append _ _).isInfix.trans here).trans places_infix_rendering
  · rw [atEnd, rendering, List.append_assoc _ _ history.appended.encode]
    exact ⟨_, _, rfl⟩

theorem shown_infix_rendering (nonempty : low < high) (inside : high ≤ source.bytes) :
    history.shown source low high <:+: history.rendering source := by
  have split : List.range source.bytes = List.range' 0 (low - 0) ++
      (List.range' low (high - low) ++ List.range' high (source.bytes - high)) := by
    rw [← range_split nonempty.le inside, ← range_split (Nat.zero_le low) (nonempty.le.trans inside),
      List.range_eq_range', Nat.sub_zero]
  refine List.IsInfix.trans ?_ places_infix_rendering
  rw [split, List.flatMap_append, List.flatMap_append]
  exact ⟨_, _, List.append_assoc _ _ _⟩

/-- Where nothing is moved away and nothing arrives inside, a range is shown with its cells. -/
theorem shown_of_unmoved (nonempty : low < high)
    (still : ∀ index, low ≤ index → index < high → history.isMoved index = false)
    (alone : ∀ index, low < index → index < high → history.arriving source index = []) :
    history.shown source low high = history.arriving source low ++ history.cells source low high := by
  rw [History.shown, cells, show high - low = (high - (low + 1)) + 1 by omega, List.range'_succ,
    List.flatMap_cons, List.flatMap_cons, place, still low le_rfl nonempty, List.append_assoc]
  congr 2
  apply List.flatMap_congr
  intro index member
  obtain ⟨above, below⟩ := List.mem_range'_1.mp member
  rw [place, alone index (by omega) (by omega), still index (by omega) (by omega)]
  rfl

/-- The cells of a range that no move cuts stand together in the result, whether or not the range
was moved. -/
theorem cells_infix_rendering (nonempty : low < high) (inside : high ≤ source.bytes)
    (bounds : ∀ move ∈ history.moves, move.destination ≤ source.bytes)
    (whole : ∀ move ∈ history.moves,
      (move.stop ≤ low ∨ high ≤ move.start ∨ move.start ≤ low ∧ high ≤ move.stop) ∧
        (move.destination ≤ low ∨ high ≤ move.destination)) :
    history.cells source low high <:+: history.rendering source := by
  by_cases taken : ∃ move ∈ history.moves, move.start ≤ low ∧ high ≤ move.stop
  · obtain ⟨move, made, first, last⟩ := taken
    refine List.IsInfix.trans ?_ (moved_infix_rendering made (bounds move made))
    rw [← cells_join source history first (nonempty.le.trans last),
      ← cells_join source history nonempty.le last]
    exact ⟨_, _, List.append_assoc _ _ _⟩
  · have still (index : Nat) (above : low ≤ index) (below : index < high) :
        history.isMoved index = false := isMoved_eq_false.mpr fun move made => by
      have apart := (whole move made).1
      have other := not_and.mp (not_exists.mp taken move) made
      omega
    have alone (index : Nat) (above : low < index) (below : index < high) :
        history.arriving source index = [] := arriving_eq_nil fun move made => by
      have apart := (whole move made).2
      omega
    have shown := @shown_infix_rendering source history low high nonempty inside
    rw [shown_of_unmoved nonempty still alone] at shown
    exact (List.suffix_append _ _).isInfix.trans shown

/-- Where all calls spare a range nothing is attached strictly inside, and its bytes are kept. -/
theorem quiet_of_spares (spared : ∀ call ∈ history, call.Spares ⟨low, high⟩) :
    (∀ offset, low < offset → offset < high →
      history.textAfter offset = [] ∧ history.textBefore offset = []) ∧
    ∀ index, low ≤ index → index < high → history.replacementAt? index = none := by
  constructor
  · intro offset above below
    have silent (call : Operation) (made : call ∈ history) := (spared call made).silent above below
    exact ⟨List.flatMap_eq_nil_iff.mpr fun call made => (silent call (List.mem_reverse.mp made)).1,
      List.flatMap_eq_nil_iff.mpr fun call made => (silent call made).2⟩
  · intro index above below
    rw [replacementAt?, List.find?_eq_none]
    intro replacement made
    obtain ⟨call, member, replaced⟩ := List.mem_filterMap.mp made
    have apart := (spared call member).2 replacement replaced
    simp only [Span.contains, Bool.and_eq_true, decide_eq_true_eq]
    dsimp only at apart
    omega

/-- The cells of a range that all calls spare are its bytes, with what is attached to its ends. -/
theorem cells_of_spares (nonempty : low < high)
    (spared : ∀ call ∈ history, call.Spares ⟨low, high⟩) :
    history.cells source low high = (history.textAfter low).encode
      ++ (source.encode.drop low).take (high - low) ++ (history.textBefore high).encode := by
  obtain ⟨quiet, kept⟩ := quiet_of_spares spared
  rw [cells_of_quiet nonempty quiet, ← flatMap_getElem]
  congr 2
  apply List.flatMap_congr
  intro index member
  obtain ⟨above, below⟩ := List.mem_range'_1.mp member
  rw [body, kept index above (by omega)]

/-- A text that is put into a range which all other calls spare stands between the bytes before and
the bytes behind it in the result. -/
theorem inserted_infix_rendering {before after : History} {offset : Nat} {text : Text}
    (first : low ≤ offset) (last : offset < high) (inside : high ≤ source.bytes)
    (spared : ∀ call ∈ before ++ after, call.Spares ⟨low, high⟩)
    (silent : ∀ call ∈ before, call.after offset = [])
    (bounds : ∀ move ∈ moves (before ++ after), move.destination ≤ source.bytes) :
    (source.encode.drop low).take (offset - low) ++ text.encode
        ++ (source.encode.drop offset).take (high - offset) <:+:
      rendering source (before ++ [.insertAfter offset text] ++ after) := by
  let history := before ++ [.insertAfter offset text] ++ after
  have moved : moves history = moves (before ++ after) := by
    simp only [history, moves_append, moves_singleton, Operation.moved?, Option.toList_none,
      List.append_nil]
  have cut {start stop : Nat} (above : low ≤ start) (under : stop ≤ high)
      (edge : offset ≤ start ∨ stop ≤ offset) : ∀ call ∈ history, call.Spares ⟨start, stop⟩ := by
    intro call made
    simp only [history, List.mem_append, List.mem_singleton] at made
    rcases made with (here | rfl) | there
    · exact (spared call (by simp [here])).mono above under
    · exact ⟨by simpa [Operation.cuts] using edge, by simp [Operation.replaced?]⟩
    · exact (spared call (by simp [there])).mono above under
  have attached : history.textAfter offset = History.textAfter after offset ++ text := by
    have none : History.textAfter before offset = [] :=
      List.flatMap_eq_nil_iff.mpr fun call made => silent call (List.mem_reverse.mp made)
    simp only [history, textAfter_append, textAfter_singleton, Operation.after, if_true, none,
      List.append_nil]
  have whole : history.cells source low high <:+: history.rendering source := by
    refine cells_infix_rendering (first.trans_lt last) inside (moved ▸ bounds) fun move made => ?_
    rw [moved] at made
    obtain ⟨call, member, moves⟩ := List.mem_filterMap.mp made
    have spares := (spared call member).1
    cases call with
    | moveRange start stop destination =>
      obtain rfl : (⟨start, stop, destination⟩ : Move) = move := Option.some.inj moves
      simp only [Operation.cuts, List.mem_cons, List.not_mem_nil, or_false, forall_eq_or_imp,
        forall_eq] at spares ⊢
      omega
    | _ => simp [Operation.moved?] at moves
  refine List.IsInfix.trans ?_ whole
  rcases first.eq_or_lt with rfl | inner
  · rw [cells_of_spares last (cut le_rfl le_rfl (.inl le_rfl)), attached]
    exact ⟨(History.textAfter after low).encode, (history.textBefore high).encode, by simp⟩
  · obtain ⟨noneAfter, noneBefore⟩ := (quiet_of_spares spared).1 offset inner last
    simp only [textAfter_append, textBefore_append, List.append_eq_nil_iff] at noneAfter noneBefore
    have unattached : history.textBefore offset = [] := by
      simp only [history, textBefore_append, textBefore_singleton, Operation.before, noneBefore,
        List.append_nil]
    rw [← cells_join source history first last.le,
      cells_of_spares inner (cut le_rfl last.le (.inr le_rfl)),
      cells_of_spares last (cut first le_rfl (.inl le_rfl)), attached, unattached, noneAfter.1]
    exact ⟨(history.textAfter low).encode, (history.textBefore high).encode, by simp⟩

end History

end Unawait.Edit

namespace Unawait.Lowering

open Edit (Operation)

section Around

variable {reading : Reading} {node top : Node} {outer inner : Trail} {number : Nat}

theorem place_eq_along {placed : (Field × Node) × Place}
    (part : placed ∈ places node (.along outer number)) :
    placed.2 = .along ((node, placed.1.1) :: outer) placed.2.number := by
  obtain ⟨scope, parent⟩ := mem_placesFrom part
  rw [Place.along, scopeAlong_cons, List.head?_cons, ← parent]
  exact congrArg (fun scope => (⟨scope, placed.2.parent, placed.2.number⟩ : Place)) scope

/-- Where something is rewritten in a statement, one of the outermost rewritten nodes of a tree around
has a byte in common with the statement. -/
theorem frontier_meets (ordered : reading.tokens.Ordered)
    (fit : Fit reading node (.along outer number)) (leads : Leads node inner top)
    (full : top.start < top.stop)
    (changed : ∀ number, frontier reading top (.along (inner ++ outer) number) ≠ []) :
    ∃ found ∈ frontier reading node (.along outer number),
      found.1.start < top.stop ∧ top.start < found.1.stop := by
  induction node using Node.parts_induction generalizing outer inner number with
  | _ node ih =>
    cases kept : (rewrite reading node (.along outer number)).isKeep with
    | false =>
      obtain ⟨-, first, last⟩ := inside_of_leads fit.wellFormed leads
      rw [frontier_of_rewritten kept]
      refine ⟨_, List.mem_singleton_self _, ?_, ?_⟩ <;> dsimp only <;> omega
    | true =>
      obtain ⟨rfl, rfl⟩ | ⟨part, held, deeper, below, rfl⟩ := leads_iff.mp leads
      · obtain ⟨found, member⟩ := List.exists_mem_of_ne_nil _ (changed number)
        have within := inner_of_frontier ordered fit member
        have nonempty := within.nonempty
        have first := within.first
        have last := within.last
        exact ⟨found, member, by omega, by omega⟩
      · obtain ⟨placed, member, rfl⟩ := @exists_place node (.along outer number) _ held
        have at' := place_eq_along member
        have fits := fit.part member
        rw [at'] at fits
        obtain ⟨found, here, meets⟩ := ih placed.1 held fits below (by simpa using changed)
        rw [← at'] at here
        exact ⟨found, frontier_of_keep kept ▸ mem_below.mpr ⟨placed, member, here⟩, meets⟩

theorem calls_eq_parts {place : Place} (ordered : reading.tokens.Ordered)
    (fit : Fit reading node place) :
    calls reading (node, place) =
      ((places node place).flatMap fun placed => calls reading (placed.1.2, placed.2)) ++
        (rewrite reading node place).edits node := by
  rw [calls, script_eq, (fit.carries ordered).edits]
  rfl

/-- No rule reaches into a label: the parts that it reaches into are of other kinds. -/
theorem sheltered_of_label {tokens : Tokens} (wellFormed : node.wellFormed tokens = true)
    {part : Field × Node} (held : part ∈ node.parts) (below : Leads part.2 inner top)
    (label : top.is .labeledStatement = true) (full : top.start < top.stop) :
    Sheltered node top.span := by
  obtain ⟨-, -, parts⟩ := (Node.wellFormed_iff _ _).mp wellFormed
  obtain ⟨-, first, last⟩ := inside_of_leads (parts part held) below
  refine ⟨full, part, held, first, last, fun reached => ?_⟩
  obtain ⟨rfl, rfl⟩ | ⟨deeper, inside, trail, leads, rfl⟩ := leads_iff.mp below
  · have named : part.2.kind = .labeledStatement := by simpa [Node.is] using label
    simp [Node.is, named] at reached
  · have fits := ((Node.wellFormed_iff _ _).mp (parts part held)).2.2 deeper inside
    obtain ⟨-, low, high⟩ := inside_of_leads fits leads
    exact ⟨deeper, inside, low, high⟩

/-- What is put in front of a node for a part stands in front of its own bytes. -/
theorem silent_of_hosted {place : Place} {span : Span} {edit : Operation}
    (ordered : reading.tokens.Ordered) (fit : Fit reading node place)
    (sheltered : Sheltered node span) (made : edit ∈ (rewrite reading node place).hosted node) :
    edit.after span.start = [] := by
  have fits := (fit.carries ordered).fits
  generalize rewrite reading node place = rule at made fits
  cases rule with
  | call binding =>
    simp only [Rewrite.hosted, Binding.edits, List.mem_append, List.mem_map, Option.mem_toList,
      List.mem_singleton] at made
    rcases made with ⟨types, -, rfl⟩ | rfl <;> rfl
  | label =>
    have clear := sheltered.clear_of_owns fits
    have nonempty := sheltered.nonempty
    rw [List.mem_singleton.mp made]
    simp only [Clear] at clear
    exact if_neg (by omega)
  | _ => simp [Rewrite.hosted] at made

/-- The calls of a part have nothing to do with a range in another part, provided that this holds
for those that are made for the node. -/
theorem calls_beside {place : Place} {span : Span} {placed other : (Field × Node) × Place}
    (ordered : reading.tokens.Ordered) (fit : Fit reading node place)
    (part : other ∈ places node place) (disjoint : other.1.2.span.Disjoint placed.1.2.span)
    (full : span.start < span.stop) (first : placed.1.2.start ≤ span.start)
    (last : span.stop ≤ placed.1.2.stop)
    (hosted : ∀ edit ∈ (rewrite reading node place).hosted node,
      edit.Spares span ∧ edit.after span.start = []) :
    ∀ call ∈ calls reading (other.1.2, other.2), call.Spares span ∧ call.after span.start = [] := by
  intro call made
  rcases calls_within ordered (fit.part part) call made with within | guest
  · have apart : min other.1.2.stop placed.1.2.stop ≤ max other.1.2.start placed.1.2.start := disjoint
    have separate : min other.1.2.stop span.stop ≤ max other.1.2.start span.start := by omega
    exact @Operation.Within.beside call span other.1.2.span within separate full
  · have guests := List.ne_nil_of_mem guest
    exact hosted call ((guests_of_part fit part guests).1 ▸ guest)

/-- The calls around a labelled statement spare it, and those that are made before its own put
nothing directly in front of it. -/
theorem calls_around (ordered : reading.tokens.Ordered)
    (fit : Fit reading node (.along outer number)) (visible : Visible reading node (.along outer number))
    (leads : Leads node inner top) (label : top.is .labeledStatement = true)
    (full : top.start < top.stop)
    (changed : ∀ number, frontier reading top (.along (inner ++ outer) number) ≠ []) :
    ∃ before after count,
      calls reading (node, .along outer number) =
        before ++ calls reading (top, .along (inner ++ outer) count) ++ after ∧
      (∀ call ∈ before ++ after, call.Spares top.span) ∧
      ∀ call ∈ before, call.after top.start = [] := by
  induction node using Node.parts_induction generalizing outer inner number with
  | _ node ih =>
    obtain ⟨rfl, rfl⟩ | ⟨part, held, deeper, below, rfl⟩ := leads_iff.mp leads
    · exact ⟨[], [], number, by simp, by simp, by simp⟩
    obtain ⟨placed, member, rfl⟩ := @exists_place node (.along outer number) _ held
    have at' := place_eq_along member
    have fits := fit.part member
    have visibleBelow := ((visible_iff _ _ _).mp visible).2 placed member
    rw [at'] at fits visibleBelow
    have changedBelow : ∀ number, frontier reading top
        (.along (deeper ++ (node, placed.1.1) :: outer) number) ≠ [] := by simpa using changed
    have sheltered := sheltered_of_label fit.wellFormed held below label full
    -- something below is rewritten and meets the statement, so no range around it is replaced
    obtain ⟨found, here, meets⟩ := frontier_meets ordered fits below full changedBelow
    rw [← at'] at here
    have unreplaced {edit : Operation} (clears : Clears reading node (.along outer number) edit) :
        ∀ own ∈ edit.replaced?, ¬ (own.1.start ≤ top.start ∧ top.stop ≤ own.1.stop) := by
      intro own replaced around
      have apart : own.1.stop ≤ found.1.start ∨ found.1.stop ≤ own.1.start :=
        (clears found (mem_below.mpr ⟨placed, member, here⟩)).2 own replaced
      omega
    have edits : ∀ edit ∈ (rewrite reading node (.along outer number)).edits node,
        edit.Spares top.span := fun edit made =>
      edits_spare ordered fit sheltered
        (fun _ => unreplaced (edits_clear ordered fit (fun _ => visible) made)) made
    have hosted : ∀ edit ∈ (rewrite reading node (.along outer number)).hosted node,
        edit.Spares top.span ∧ edit.after top.start = [] := fun edit made =>
      ⟨hosted_spare ordered fit sheltered (unreplaced (hosted_clear ordered fit visible made)) made,
        silent_of_hosted ordered fit sheltered made⟩
    obtain ⟨-, first, last⟩ := inside_of_leads fits.wellFormed below
    have beside {other : (Field × Node) × Place} (part : other ∈ places node (.along outer number))
        (disjoint : other.1.2.span.Disjoint placed.1.2.span) :=
      calls_beside ordered fit part disjoint full first last hosted
    obtain ⟨front, back, split⟩ := List.append_of_mem member
    have pairs := @places_pairwise node (.along outer number) _ fit.nested.2.2
    rw [split] at pairs
    obtain ⟨-, behind, across⟩ := List.pairwise_append.mp pairs
    obtain ⟨before, after, count, whole, spares, silent⟩ :=
      ih placed.1 held fits visibleBelow below changedBelow
    have inFront : ∀ call ∈ front.flatMap fun other => calls reading (other.1.2, other.2),
        call.Spares top.span ∧ call.after top.start = [] := by
      intro call made
      obtain ⟨other, there, made⟩ := List.mem_flatMap.mp made
      exact beside (by simp [split, there]) (across other there placed (by simp)) call made
    have behindIt : ∀ call ∈ back.flatMap fun other => calls reading (other.1.2, other.2),
        call.Spares top.span := by
      intro call made
      obtain ⟨other, there, made⟩ := List.mem_flatMap.mp made
      have disjoint := (List.pairwise_cons.mp behind).1 other there
      rw [Span.Disjoint, min_comm, max_comm] at disjoint
      exact (beside (by simp [split, there]) disjoint call made).1
    refine ⟨(front.flatMap fun other => calls reading (other.1.2, other.2)) ++ before,
      after ++ (back.flatMap fun other => calls reading (other.1.2, other.2)) ++
        (rewrite reading node (.along outer number)).edits node, count, ?_, ?_, ?_⟩
    · rw [calls_eq_parts ordered fit, split, List.flatMap_append, List.flatMap_cons, at', whole]
      simp [List.append_assoc]
    · intro call made
      simp only [List.mem_append] at made spares
      rcases made with (made | made) | (made | made) | made
      · exact (inFront call made).1
      · exact spares call (.inl made)
      · exact spares call (.inr made)
      · exact behindIt call made
      · exact edits call made
    · intro call made
      rcases List.mem_append.mp made with made | made
      · exact (inFront call made).2
      · exact silent call made

end Around

/-! ### Labels around a loop -/

/-- Labelled statements directly around a statement, the innermost first. -/
def Labels : Node → List Node → Prop
  | _, [] => True
  | inner, label :: outer =>
    label.is .labeledStatement = true ∧ label.parts = [(.body, inner)] ∧ Labels label outer

/-- The slots from labels to the statement that they are around. -/
def labelSlots (labels : List Node) : Trail := labels.map fun label => (label, .body)

section Labels

variable {reading : Reading} {root inner : Node} {labels : List Node} {trail : Trail}

theorem leads_of_labels (chain : Labels inner labels)
    (leads : Leads root trail (labels.getLastD inner)) :
    Leads root (labelSlots labels ++ trail) inner := by
  induction labels generalizing inner with
  | nil => exact leads
  | cons label outer ih =>
    obtain ⟨-, parts, rest⟩ := chain
    rw [List.getLastD_cons] at leads
    exact .part (ih rest leads) (by simp [parts])

theorem is_of_labels (chain : Labels inner labels) (label : inner.is .labeledStatement = true) :
    (labels.getLastD inner).is .labeledStatement = true := by
  induction labels generalizing inner with
  | nil => exact label
  | cons next outer ih =>
    rw [List.getLastD_cons]
    exact ih chain.2.2 chain.1

theorem places_of_label {label : Node} {number : Nat} (parts : label.parts = [(.body, inner)]) :
    places label (.along trail number) =
      [((.body, inner), .along ((label, .body) :: trail) number)] := by
  rw [places, parts]
  rfl

/-- The rule for a label makes no calls. -/
theorem edits_of_label {label : Node} {number : Nat} (kind : label.is .labeledStatement = true) :
    (nodeEffect reading label (.along trail number)).edits = [] := by
  have named : label.kind = .labeledStatement := by simpa [Node.is] using kind
  have plain : label.opensScope = false := by
    simp [Node.opensScope, Node.is, named, Kind.ownsReceiver]
  simp [nodeEffect_along, leavingEffect, plain, ruleEffect, named]

theorem calls_of_labels (chain : Labels inner labels) (number : Nat) :
    calls reading (labels.getLastD inner, .along trail number) =
      calls reading (inner, .along (labelSlots labels ++ trail) number) := by
  induction labels generalizing inner with
  | nil => rfl
  | cons label outer ih =>
    obtain ⟨kind, parts, rest⟩ := chain
    rw [List.getLastD_cons, ih rest, calls, script_eq, partsScript, places_of_label parts,
      edits_of_label kind]
    simp [markEdits, calls, labelSlots]

/-- Where a statement is rewritten, so is what is shown of the labels around it. -/
theorem frontier_of_labels (chain : Labels inner labels)
    (changed : ∀ number, frontier reading inner (.along (labelSlots labels ++ trail) number) ≠ [])
    (number : Nat) : frontier reading (labels.getLastD inner) (.along trail number) ≠ [] := by
  induction labels generalizing inner with
  | nil => exact changed number
  | cons label outer ih =>
    obtain ⟨-, parts, rest⟩ := chain
    rw [List.getLastD_cons]
    refine ih rest fun number => ?_
    cases kept : (rewrite reading label (.along (labelSlots outer ++ trail) number)).isKeep with
    | false => simp [frontier_of_rewritten kept]
    | true =>
      rw [frontier_of_keep kept, below, places_of_label parts]
      simpa [labelSlots] using changed number

end Labels

/-- All calls for a loop but the first are behind its keyword. -/
theorem loopEdits_eq_cons {number : Nat} {marker : Bool} {wrapped : Nat} {labelled : Option Nat}
    {particles : LoopParticles} {node left right body : Node} (low : Nat) (nested : node.Nested)
    (fits : LoopFits node labelled particles left right body) :
    ∃ rest, loopEdits number marker wrapped particles node left right body =
        .insertAfter wrapped "try\x7b".toList :: rest ∧
      ∀ edit ∈ rest, edit.Spares ⟨low, node.start + 3⟩ := by
  refine ⟨_, rfl, fun edit made => ?_⟩
  obtain ⟨-, bodyInside⟩ := nested.2.1 _ (Node.mem_parts_of_child fits.bodyPart)
  obtain ⟨-, -, -, -, begun, opened, -, opening, beforeLeft, leftNonempty, ⟨-, between, -, -⟩,
    rightNonempty, ⟨-, closing, -, -⟩, beforeBody, bodyNonempty, -⟩ := fits
  dsimp only at between closing bodyInside
  apply Operation.spares_of_behind
  simp only [List.append_eq, List.cons_append, List.mem_cons, List.mem_append, List.not_mem_nil,
    or_false] at made
  rcases made with rfl | (made | made) | rfl | rfl | rfl | rfl
  · simp only [Operation.cuts, List.mem_cons, List.not_mem_nil, or_false, forall_eq_or_imp, forall_eq]
    omega
  · split at made
    · simp at made
    · simp only [List.mem_cons, List.not_mem_nil, or_false] at made
      rcases made with rfl | rfl <;> simp only [Operation.cuts, List.mem_singleton, forall_eq] <;> omega
  · split at made
    · rw [List.mem_singleton.mp made]
      simp only [Operation.cuts, List.mem_singleton, forall_eq]
      omega
    · simp only [List.mem_cons, List.not_mem_nil, or_false] at made
      rcases made with rfl | rfl <;> simp only [Operation.cuts, List.mem_singleton, forall_eq] <;> omega
  · simp only [Operation.cuts, List.mem_cons, List.not_mem_nil, or_false, forall_eq_or_imp, forall_eq]
    split <;> omega
  · simp only [Operation.cuts, List.mem_cons, List.not_mem_nil, or_false, forall_eq_or_imp, forall_eq]
    omega
  · simp only [Operation.cuts, List.mem_cons, List.not_mem_nil, or_false, forall_eq_or_imp, forall_eq]
    omega
  · simp only [Operation.cuts, List.mem_singleton, forall_eq]
    omega

section Loop

variable {reading : Reading} {root loop : Node} {trail : Trail}
  (ordered : reading.tokens.Ordered) (fit : Fit reading root {}) (leads : Leads root trail loop)
  (lowered : isLoweredLoop (trail, loop) = true)

include ordered fit leads lowered

/-- A lowered loop is rewritten, and no calls are made for it by the rules for its parts. -/
theorem rewrite_of_isLoweredLoop (number : Nat) :
    (rewrite reading loop (.along trail number)).isKeep = false ∧
      (rewrite reading loop (.along trail number)).hosted loop = [] := by
  obtain ⟨particles, left, right, body, -, -, -, -, edits⟩ :=
    edits_of_isLoweredLoop ordered fit leads lowered
  have made := ((fit.along leads number).carries ordered).edits
  rw [nodeEffect_along, edits] at made
  cases form : rewrite reading loop (.along trail number) with
  | keep => simp [form, Rewrite.edits, loopEdits] at made
  | call binding => simp [form, Rewrite.edits, loopEdits] at made
  | label => simp [form, Rewrite.edits, loopEdits] at made
  | _ => exact ⟨rfl, rfl⟩

/-- The calls in a loop are made behind its keyword, up to the one that puts the `try` in front. -/
theorem calls_of_loop (number low : Nat) :
    ∃ inside rest, calls reading (loop, .along trail number) =
        inside ++ .insertAfter (wrapStart loop trail.head?) "try\x7b".toList :: rest ∧
      (∀ call ∈ inside, ∀ range : Span, range.start < range.stop → range.stop ≤ loop.start + 3 →
        call.Spares range ∧ call.after range.start = []) ∧
      ∀ call ∈ rest, call.Spares ⟨low, loop.start + 3⟩ := by
  have here := fit.along leads number
  obtain ⟨particles, left, right, body, -, -, -, fits, edits⟩ :=
    edits_of_isLoweredLoop ordered fit leads lowered
  obtain ⟨-, -, own⟩ := keyword_of_isLoweredLoop here lowered
  obtain ⟨rest, split, behind⟩ := @loopEdits_eq_cons
    (number + loopsInParts loop (scopeAlong {} trail) loop.parts)
    (scopeAlong {} trail).isAsyncGenerator (wrapStart loop trail.head?) _ _ _ _ _ _ low here.nested fits
  refine ⟨(below reading loop (.along trail number)).flatMap (calls reading), rest, ?_, ?_, behind⟩
  · rw [calls_eq ordered here, ← (here.carries ordered).edits, nodeEffect_along, edits, split]
  · intro call made range nonempty last
    obtain ⟨found, member, made⟩ := List.mem_flatMap.mp made
    obtain ⟨placed, part, -, inPart⟩ := inner_of_below ordered here member
    rcases calls_within ordered inPart.fit call made with within | guest
    · -- a part of the loop is behind its keyword
      have disjoint : min placed.1.2.stop (loop.start + 3) ≤ max placed.1.2.start loop.start :=
        own.2.2.2 _ (mem_parts_of_places part)
      obtain ⟨above, -⟩ := here.nested.2.1 _ (mem_parts_of_places part)
      have first := inPart.first
      have filled := inPart.nonempty
      have bounded := inPart.last
      have separate : min found.1.stop range.stop ≤ max found.1.start range.start := by omega
      exact @Operation.Within.beside call range found.1.span within separate nonempty
    · have guests := List.ne_nil_of_mem guest
      rw [guests_eq_hosted here member guests,
        (rewrite_of_isLoweredLoop ordered fit leads lowered number).2] at guest
      simp at guest

end Loop

/-- The first call for a loop puts its `try` in front of the innermost label. All other calls of a
tree spare what is from the outermost label to the keyword of the loop. -/
theorem calls_of_labelled_loop {reading : Reading} {root loop label : Node} {outer : List Node}
    {trail : Trail} (ordered : reading.tokens.Ordered) (fit : Fit reading root {})
    (visible : Visible reading root {}) (chain : Labels loop (label :: outer))
    (leads : Leads root trail (outer.getLastD label))
    (lowered : isLoweredLoop (labelSlots (label :: outer) ++ trail, loop) = true) :
    (outer.getLastD label).start ≤ label.start ∧ label.start < loop.start ∧
    ∃ before after,
      calls reading (root, {}) = before ++ [.insertAfter label.start "try\x7b".toList] ++ after ∧
      (∀ call ∈ before ++ after, call.Spares ⟨(outer.getLastD label).start, loop.start + 3⟩) ∧
      ∀ call ∈ before, call.after label.start = [] := by
  let top := outer.getLastD label
  have path : Leads root (labelSlots (label :: outer) ++ trail) loop :=
    leads_of_labels chain (by rwa [List.getLastD_cons])
  have parent : (labelSlots (label :: outer) ++ trail).head? = some (label, .body) := rfl
  have wrapped : wrapStart loop (labelSlots (label :: outer) ++ trail).head? = label.start := by
    simp [parent, wrapStart, chain.1]
  -- the ranges of the labels and of the loop
  obtain ⟨particles, left, right, body, -, -, -, fits, -⟩ :=
    edits_of_isLoweredLoop ordered fit path lowered
  have inFront : label.start < loop.start := fits.outside label.start (by
    simp [parent, labelledAt?, chain.1])
  have wide : loop.start + 3 ≤ loop.stop :=
    (keyword_of_isLoweredLoop (fit.along path 0) lowered).2.2.2.2.1
  have topFit := fit.along leads 0
  have first : top.start ≤ label.start :=
    (inside_of_leads topFit.wellFormed (leads_of_labels chain.2.2 .root)).2.1
  have last : loop.stop ≤ top.stop := by
    have within : Leads top (labelSlots (label :: outer) ++ []) loop :=
      leads_of_labels chain (by rw [List.getLastD_cons]; exact .root)
    exact (inside_of_leads topFit.wellFormed within).2.2
  have under : loop.start + 3 ≤ top.span.stop := wide.trans last
  have full : top.start < top.stop := by omega
  -- the calls around the labels, and those inside
  have changed : ∀ number, frontier reading top (.along (trail ++ []) number) ≠ [] := by
    intro number
    have shown := @frontier_of_labels reading loop (label :: outer) trail chain (fun number => by
      simp [frontier_of_rewritten (rewrite_of_isLoweredLoop ordered fit path lowered number).1]) number
    rw [List.getLastD_cons] at shown
    rwa [List.append_nil]
  obtain ⟨before, after, count, whole, spares, silent⟩ := @calls_around reading root top [] trail 0
    ordered fit visible leads (is_of_labels chain.2.2 chain.1) full changed
  obtain ⟨inside, rest, split, quiet, behind⟩ :=
    calls_of_loop ordered fit path lowered count top.start
  have inner := @calls_of_labels reading loop (label :: outer) trail chain count
  rw [List.getLastD_cons, split, wrapped] at inner
  refine ⟨first, inFront, before ++ inside, rest ++ after, ?_, ?_, ?_⟩
  · rw [show calls reading (root, {}) = _ from whole, List.append_nil, inner]
    simp
  · intro call made
    have around : ∀ call ∈ before ++ after, call.Spares ⟨top.start, loop.start + 3⟩ :=
      fun call made => (spares call made).mono le_rfl under
    simp only [List.mem_append] at made around
    rcases made with (made | made) | (made | made)
    · exact around call (.inl made)
    · exact (quiet call made ⟨top.start, loop.start + 3⟩ (by dsimp only; omega) le_rfl).1
    · exact behind call made
    · exact around call (.inr made)
  · intro call made
    rcases List.mem_append.mp made with made | made
    · rcases first.eq_or_lt with same | inner
      · exact same ▸ silent call made
      · exact ((spares call (List.mem_append_left _ made)).silent inner (by omega)).1
    · exact (quiet call made ⟨label.start, loop.start + 3⟩ (by dsimp only; omega) le_rfl).2

end Unawait.Lowering

namespace Unawait

open Lowering

theorem aligned_of_leads {source : Text} {root node : Node} {trail : Trail}
    (aligned : root.aligned source = true) (leads : Leads root trail node) :
    node.aligned source = true := by
  induction leads with
  | root => exact aligned
  | part above held ih => exact ((Node.aligned_iff _ _).mp ih).2 _ held

/-- The labels of a lowered loop. The result has the text of the source from the outermost label to
the keyword of the loop, with the `try` put in front of the innermost label. So this label stays on
the loop. Any label around it is in front of the `try`, and a `continue` cannot name it. -/
theorem try_put_at_innermost_label (parse : Text → Options → Except Failure Parsed) (source : Text)
    (options : Options) (parsed : Parsed) (transformed : Transformed)
    (isRead : Transform.skips source options = false)
    (parses : parse source options = .ok parsed) (ordered : parsed.tokens.Ordered)
    (wellFormed : parsed.program.wellFormed parsed.tokens = true)
    (tokensAligned : parsed.tokens.Aligned source)
    (aligned : parsed.program.aligned source = true)
    (done : transformWith parse source options = .ok transformed)
    (loop label : Node) (outer : List Node) (trail : Trail)
    (chain : Labels loop (label :: outer))
    (leads : Leads parsed.program trail (outer.getLastD label))
    (lowered : isLoweredLoop (labelSlots (label :: outer) ++ trail, loop) = true) :
    parsed.tokens.Has ⟨loop.start, loop.start + 3⟩ "for".toList ∧
      Text.encode (source.slice (outer.getLastD label).start label.start ++ "try\x7b".toList
        ++ source.slice label.start (loop.start + 3)) <:+: transformed.code.encode := by
  rw [Transform.transformWith_eq_lower isRead parses] at done
  obtain ⟨buffer, definitions, performed, code, rendered⟩ := Transform.made_of_lower done
  let reading : Reading := ⟨source, parsed.tokens, parsed.lines⟩
  have fit : Fit reading parsed.program {} := ⟨wellFormed, by simp [Seated]⟩
  have visible : Visible reading parsed.program {} :=
    visible_of_clean ordered fit (calls_clean (clean_of_perform performed))
  obtain ⟨first, inFront, before, after, split, spared, silent⟩ :=
    calls_of_labelled_loop ordered fit visible chain leads lowered
  have path : Leads parsed.program (labelSlots (label :: outer) ++ trail) loop :=
    leads_of_labels chain (by rwa [List.getLastD_cons])
  have labelPath : Leads parsed.program (labelSlots outer ++ trail) label :=
    leads_of_labels chain.2.2 leads
  obtain ⟨-, keyword, -⟩ := keyword_of_isLoweredLoop (fit.along path 0) lowered
  refine ⟨keyword, ?_⟩
  have topBoundary := aligned_start (aligned_of_leads aligned leads)
  have labelBoundary := aligned_start (aligned_of_leads aligned labelPath)
  have keywordBoundary : source.IsBoundary (loop.start + 3) := (tokensAligned _ keyword.1).2
  have bounds : ∀ move ∈ Edit.History.moves (before ++ after), move.destination ≤ source.bytes := by
    have moves : Edit.History.moves (Transform.calls source options parsed) =
        Edit.History.moves (before ++ after) := by
      rw [Transform.moves_calls_eq, split]
      simp only [Edit.History.moves_append, Edit.History.moves_singleton, Edit.Operation.moved?,
        Option.toList_none, List.append_nil]
    rw [← moves]
    exact Edit.destinations_inside (Edit.Buffer.reflects_ofText source) performed
  have shown := @Edit.History.inserted_infix_rendering source _ _ before after _ "try\x7b".toList first
    (by omega) keywordBoundary.le spared silent bounds
  have aligned' : ∀ call ∈ Transform.calls source options parsed, call.Aligned source :=
    fun call made offset named _ => script_aligned ordered tokensAligned aligned (by simp) fit
      options.sourceMap call made offset named
  have unmarked : Edit.History.rendering source (Transform.calls source options parsed) =
      Edit.History.rendering source (calls reading (parsed.program, {})) := by
    rw [← Edit.History.rendering_filter, Transform.calls, filter_script,
      Edit.History.rendering_filter]
  rw [← split, ← unmarked, ← rendered aligned'] at shown
  rw [code, Text.encode_append, Text.encode_append, Text.encode_append,
    Text.encode_slice topBoundary labelBoundary first,
    Text.encode_slice labelBoundary keywordBoundary (by omega)]
  exact shown.trans (List.prefix_append _ _).isInfix

/-- The loop of the program `async()=>{a:b:for await(x of y)continue a}`. -/
def continuedLoop : Node :=
  .mk { kind := .forOfStatement, span := ⟨14, 41⟩, flags := { isAwait := true } }
    [.one .left (.plain .identifier ⟨24, 25⟩ []), .one .right (.plain .identifier ⟨29, 30⟩ []),
      .one .body (.plain .statement ⟨31, 41⟩ [])]

/-- The label `b`. -/
def innerLabel : Node := .plain .labeledStatement ⟨12, 41⟩ [.one .body continuedLoop]

/-- The label `a`. -/
def outerLabel : Node := .plain .labeledStatement ⟨10, 41⟩ [.one .body innerLabel]

def labelledTwice : Parsed :=
  let source := "async()=>\x7ba:b:for await(x of y)continue a\x7d".toList
  let arrow := .mk { kind := .arrowFunctionExpression, span := ⟨0, 42⟩, flags := { isAsync := true } }
    [.many .params [],
      .one .body (.plain .blockStatement ⟨9, 42⟩ [.many .children [outerLabel]])]
  { program := .plain .program ⟨0, 42⟩ [.many .children [arrow]]
    tokens := ⟨source, #[⟨0, 5⟩, ⟨5, 6⟩, ⟨6, 7⟩, ⟨7, 9⟩, ⟨9, 10⟩, ⟨10, 11⟩, ⟨11, 12⟩, ⟨12, 13⟩,
      ⟨13, 14⟩, ⟨14, 17⟩, ⟨18, 23⟩, ⟨23, 24⟩, ⟨24, 25⟩, ⟨26, 28⟩, ⟨29, 30⟩, ⟨30, 31⟩, ⟨31, 39⟩,
      ⟨40, 41⟩, ⟨41, 42⟩]⟩
    lines := .ofText source }

def labelledTwiceCode : Text :=
  ("()=>__async(function*()\x7ba:try\x7bb:for (var $d0=1,$e0,$s0,$i0=__asyncIterator(y);"
    ++ "$d0=1,!($s0=yield $i0.next()).done&&!($d0=0);)\x7b(x=$s0.value);continue a\x7d\x7d"
    ++ "catch($x0)\x7b$e0=\x7be:$x0\x7d\x7d"
    ++ "finally\x7btry\x7b$d0||!$i0.return||(yield $i0.return())\x7d"
    ++ "catch($x0)\x7bif(!$e0)throw $x0\x7dif($e0)throw $e0.e\x7d\x7d())").toList

/-- What lowering this program gives. -/
def labelledTwiceRun : Evaluated (transformWith (fun _ _ => .ok labelledTwice)
    labelledTwice.tokens.source { includeHelper := false }) Transformed.code
    labelledTwiceCode :=
  .ofSpelled (Text.toList_literals _ _ _ _ _) (by decide +kernel)

/-- The label that the program continues is no longer on the loop. -/
theorem try_put_at_innermost_label_two :
    let source := labelledTwice.tokens.source
    ∃ transformed, transformWith (fun _ _ => .ok labelledTwice) source { includeHelper := false } =
        .ok transformed ∧
      transformed.code = labelledTwiceCode ∧
      Text.encode "a:try\x7bb:for".toList <:+: transformed.code.encode := by
  intro source
  obtain ⟨transformed, done, code⟩ := labelledTwiceRun
  have chain : Labels continuedLoop [innerLabel, outerLabel] := ⟨rfl, rfl, rfl, rfl, trivial⟩
  have held : ∃ trail, Leads labelledTwice.program trail outerLabel ∧
      isLoweredLoop (labelSlots [innerLabel, outerLabel] ++ trail, continuedLoop) = true :=
    ⟨_, .part (.part (.part .root List.mem_cons_self) List.mem_cons_self) List.mem_cons_self,
      by decide +kernel⟩
  obtain ⟨trail, leads, lowered⟩ := held
  obtain ⟨-, shown⟩ := try_put_at_innermost_label (fun _ _ => .ok labelledTwice) source
    { includeHelper := false } labelledTwice transformed (by decide +kernel) rfl (by decide +kernel)
    (by decide +kernel) (by decide +kernel) (by decide +kernel) done continuedLoop innerLabel
    [outerLabel] trail chain leads lowered
  refine ⟨transformed, done, code, ?_⟩
  have text : source.slice 10 12 ++ "try\x7b".toList ++ source.slice 12 17 =
      "a:try\x7bb:for".toList := by decide +kernel
  rw [← text]
  exact shown

end Unawait
